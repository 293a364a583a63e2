import Rigging.Json.Reader
import Rigging.Json.Writer
import Rigging.Proofs.Assoc
import Rigging.Proofs.Text.Blank
import Rigging.Proofs.Text.Utf8

/-!
# Reading back what has been written

The indented form of a value that is made of strings, arrays and objects is ASCII text (`decode_write`),
and reading that text gives the value again (`parse_write`).  A string is read character by character
(`readString_writtenChar`); an item and a member are read whatever follows them (`ReadsBack`), so that
lists of them are read by induction.
-/

namespace Rigging.Json

/-! ### Code escapes -/

theorem digitValue?_digitChar : ∀ d < 16, Number.digitValue? (Nat.digitChar d) = some d := by
  decide

theorem hexWidth_succ {width : Nat} (hwidth : 0 < width) (n : Nat) :
    Text.hexWidth (width + 1) n = Text.hexWidth width (n / 16) ++ [Nat.digitChar (n % 16)] := by
  unfold Text.hexWidth
  dsimp only
  by_cases hn : n < 16
  · have hzeros : List.replicate (width - 1) '0' ++ ['0'] = List.replicate width '0' := by
      rw [← List.replicate_succ', Nat.sub_add_cancel hwidth]
    rw [Nat.div_eq_of_lt hn, Nat.mod_eq_of_lt hn, Nat.toDigits_zero, Nat.toDigits_of_lt_base hn,
      List.length_singleton, List.length_singleton, Nat.add_sub_cancel, hzeros]
  · rw [Nat.toDigits_of_base_le (by decide) (Nat.le_of_not_lt hn), List.length_append,
      List.length_singleton, Nat.add_sub_add_right, List.append_assoc]

theorem hexWidth_four {n : Nat} (h : n < 0x10000) :
    Text.hexWidth 4 n = [Nat.digitChar (n / 4096), Nat.digitChar (n / 256 % 16),
      Nat.digitChar (n / 16 % 16), Nat.digitChar (n % 16)] := by
  have hone : ∀ m < 16, Text.hexWidth 1 m = [Nat.digitChar m] := by
    intro m hm
    rw [Text.hexWidth, Nat.toDigits_of_lt_base hm]
    rfl
  rw [hexWidth_succ (by decide), hexWidth_succ (by decide), hexWidth_succ (by decide),
    hone _ (by omega), Nat.div_div_eq_div_mul n 16 16, Nat.div_div_eq_div_mul n _ 16]
  rfl

theorem fourHex?_hexWidth {n : Nat} (h : n < 0x10000) : fourHex? (Text.hexWidth 4 n) = some n := by
  rw [hexWidth_four h, fourHex?]
  simp only [List.mapM_cons, List.mapM_nil, digitValue?_digitChar _ (show n / 4096 < 16 by omega),
    digitValue?_digitChar _ (show n / 256 % 16 < 16 by omega),
    digitValue?_digitChar _ (show n / 16 % 16 < 16 by omega),
    digitValue?_digitChar _ (show n % 16 < 16 by omega), Option.pure_def, Option.bind_eq_bind,
    Option.bind_some, Number.ofDigits, List.foldl_cons, List.foldl_nil, Option.some.injEq]
  omega

/-- A code escape reads back, when something follows it. -/
theorem codeAt?_hexWidth {n : Nat} (h : n < 0x10000) {rest : List Char} (hrest : rest ≠ []) :
    codeAt? (Text.hexWidth 4 n ++ rest) = some n ∧ (Text.hexWidth 4 n ++ rest).drop 4 = rest := by
  have hlength : (Text.hexWidth 4 n).length = 4 := by rw [hexWidth_four h]; rfl
  have hdrop : (Text.hexWidth 4 n ++ rest).drop 4 = rest := List.drop_left' hlength
  refine ⟨?_, hdrop⟩
  rw [codeAt?, hdrop, List.take_left' hlength, fourHex?_hexWidth h, if_neg]
  exact fun hempty => hrest (List.isEmpty_iff.mp hempty)

theorem length_codeEscape {n : Nat} (h : n < 0x10000) : (codeEscape n).length = 6 := by
  rw [codeEscape, hexWidth_four h]
  rfl

/-! ### Strings -/

/-- How a whole character is written in ASCII. -/
inductive Form (c : Char) : Prop where
  | short (e : Char) (escaped : escaped? e = some c) (text : writtenChar true c = ['\\', e])
  | plain (low : 0x20 ≤ c.toNat) (high : c.toNat < 0x80) (quote : c ≠ '"') (slash : c ≠ '\\')
      (text : writtenChar true c = [c])
  | code (small : c.toNat < 0x10000) (text : writtenChar true c = codeEscape c.toNat)
  | pair (large : 0x10000 ≤ c.toNat)
      (text : writtenChar true c = codeEscape (0xD800 + (c.toNat - 0x10000) / 0x400) ++
        codeEscape (0xDC00 + (c.toNat - 0x10000) % 0x400))

theorem form_writtenChar {c : Char} (hc : Text.half? c = none) : Form c := by
  by_cases hquote : c = '"'
  · exact .short '"' (by rw [hquote]; rfl) (by rw [writtenChar, if_pos hquote])
  by_cases hslash : c = '\\'
  · exact .short '\\' (by rw [hslash]; rfl) (by rw [writtenChar, if_neg hquote, if_pos hslash])
  by_cases hn : c = '\n'
  · exact .short 'n' (by rw [hn]; rfl) (by rw [hn]; rfl)
  by_cases hr : c = '\r'
  · exact .short 'r' (by rw [hr]; rfl) (by rw [hr]; rfl)
  by_cases ht : c = '\t'
  · exact .short 't' (by rw [ht]; rfl) (by rw [ht]; rfl)
  by_cases hb : c = '\x08'
  · exact .short 'b' (by rw [hb]; rfl) (by rw [hb]; rfl)
  by_cases hf : c = '\x0c'
  · exact .short 'f' (by rw [hf]; rfl) (by rw [hf]; rfl)
  have htext : writtenChar true c =
      if c.toNat < 0x20 then codeEscape c.toNat
      else if 0x7F ≤ c.toNat then
        if c.toNat = 0x7F then [c]
        else if c.toNat < 0x10000 then codeEscape c.toNat
        else codeEscape (0xD800 + (c.toNat - 0x10000) / 0x400) ++
          codeEscape (0xDC00 + (c.toNat - 0x10000) % 0x400)
      else [c] := by
    rw [writtenChar, if_neg hquote, if_neg hslash, if_neg hn, if_neg hr, if_neg ht, if_neg hb,
      if_neg hf]
    simp only [hc, Bool.true_and, decide_eq_true_eq]
  split at htext
  · exact .code (by omega) htext
  split at htext
  · split at htext
    · exact .plain (by omega) (by omega) hquote hslash htext
    split at htext
    · exact .code (by omega) htext
    · exact .pair (by omega) htext
  · exact .plain (by omega) (by omega) hquote hslash htext

section Strings

variable {start fuel position : Nat} {rest : List Char}

/-- What is read behind one character. -/
def readOn (start fuel : Nat) (c : Char) (s : Spot) : Except Fault (List Char × Spot) := do
  let (cs, s') ← readString start fuel s
  return (c :: cs, s')

theorem readString_escape {c e : Char} (he : escaped? c = some e) :
    readString start (fuel + 1) ⟨'\\' :: c :: rest, position⟩ =
      readOn start fuel e ⟨rest, position + 2⟩ := by
  simp only [readString]
  split
  · rename_i heq
    cases heq
  · rename_i heq
    cases heq
    exact absurd he (by simp [escaped?])
  · rename_i heq
    cases heq
    rw [he]
    rfl

theorem readString_plain {c : Char} (hlow : 0x20 ≤ c.toNat) (hquote : c ≠ '"') (hslash : c ≠ '\\') :
    readString start (fuel + 1) ⟨c :: rest, position⟩ = readOn start fuel c ⟨rest, position + 1⟩ := by
  rw [readString]
  split
  · rename_i heq
    cases heq
  · rename_i heq
    exact absurd (List.cons.inj heq).1 hquote
  · rename_i heq
    exact absurd (List.cons.inj heq).1 hslash
  · rename_i heq
    obtain ⟨rfl, rfl⟩ := List.cons.inj heq
    rw [if_neg (Nat.not_lt.mpr hlow)]
    rfl

/-- A code that is no first half stands for a character. -/
theorem readString_code {n : Nat} (hn : n < 0x10000) (hhalf : Text.isHighHalf n = false)
    (hrest : rest ≠ []) :
    readString start (fuel + 1) ⟨codeEscape n ++ rest, position⟩ =
      readOn start fuel (Text.charOf n) ⟨rest, position + 6⟩ := by
  obtain ⟨hcode, hdrop⟩ := codeAt?_hexWidth hn hrest
  simp only [codeEscape, List.cons_append, readString, hcode, hhalf, Bool.false_eq_true, if_false]
  rw [Spot.skip, List.drop_succ_cons, List.drop_succ_cons, hdrop]
  rfl

/-- Two halves stand for one character. -/
theorem readString_pair {high low : Nat} (hhigh : Text.isHighHalf high = true)
    (hlow : Text.isLowHalf low = true) (hrest : rest ≠ []) :
    readString start (fuel + 1) ⟨codeEscape high ++ codeEscape low ++ rest, position⟩ =
      readOn start fuel (Char.ofNat (Text.joinHalves high low)) ⟨rest, position + 12⟩ := by
  have hhigh' : high < 0x10000 := by simp [Text.isHighHalf] at hhigh; omega
  have hlow' : low < 0x10000 := by simp [Text.isLowHalf] at hlow; omega
  obtain ⟨hsecond, _⟩ := codeAt?_hexWidth hlow' hrest
  obtain ⟨hfirst, hdrop⟩ := codeAt?_hexWidth hhigh'
    (show codeEscape low ++ rest ≠ [] from List.cons_ne_nil _ _)
  have hpair : lowHalfAt? (codeEscape low ++ rest) = some low := by
    simp only [codeEscape, List.cons_append, lowHalfAt?, hsecond, Option.filter_some, hlow, if_true]
  rw [List.append_assoc]
  nth_rewrite 1 [codeEscape]
  simp only [List.cons_append, readString, hfirst, hhigh, if_true, hdrop, hpair]
  have hlength : (codeEscape high ++ codeEscape low).length = 12 := by
    rw [List.length_append, length_codeEscape hhigh', length_codeEscape hlow']
  have hskip : ('\\' :: 'u' :: (Text.hexWidth 4 high ++ (codeEscape low ++ rest))).drop 12 = rest := by
    rw [← List.cons_append, ← List.cons_append, ← codeEscape, ← List.append_assoc]
    exact List.drop_left' hlength
  rw [Spot.skip, hskip]
  rfl

/-- **A written character reads back**, when something follows it. -/
theorem readString_writtenChar {c : Char} (hc : Text.half? c = none) (hrest : rest ≠ []) :
    ∃ position', readString start (fuel + 1) ⟨writtenChar true c ++ rest, position⟩ =
      readOn start fuel c ⟨rest, position'⟩ := by
  have hvalid : c.toNat < 0xD800 ∨ 0xDFFF < c.toNat ∧ c.toNat < 0x110000 := c.valid
  cases form_writtenChar hc with
  | short _ he htext =>
    rw [htext]
    exact ⟨_, readString_escape he⟩
  | plain hlow _ hquote hslash htext =>
    rw [htext, List.singleton_append]
    exact ⟨_, readString_plain hlow hquote hslash⟩
  | code hn htext =>
    have hhalf : Text.isHighHalf c.toNat = false := by
      simp only [Text.isHighHalf, Bool.and_eq_false_iff, decide_eq_false_iff_not]
      omega
    rw [htext]
    exact ⟨_, (readString_code hn hhalf hrest).trans (by rw [Text.charOf_toNat])⟩
  | pair hn htext =>
    have hhigh : Text.isHighHalf (0xD800 + (c.toNat - 0x10000) / 0x400) = true := by
      simp only [Text.isHighHalf, Bool.and_eq_true, decide_eq_true_eq]
      omega
    have hlow : Text.isLowHalf (0xDC00 + (c.toNat - 0x10000) % 0x400) = true := by
      simp only [Text.isLowHalf, Bool.and_eq_true, decide_eq_true_eq]
      omega
    have hjoin : Text.joinHalves (0xD800 + (c.toNat - 0x10000) / 0x400)
        (0xDC00 + (c.toNat - 0x10000) % 0x400) = c.toNat := by
      unfold Text.joinHalves
      omega
    rw [htext]
    exact ⟨_, (readString_pair hhigh hlow hrest).trans (by rw [hjoin, Char.ofNat_toNat])⟩

theorem writtenChar_ne_nil {c : Char} (hc : Text.half? c = none) : writtenChar true c ≠ [] := by
  cases form_writtenChar hc with
  | short _ _ htext | plain _ _ _ _ htext | code _ htext | pair _ htext =>
    rw [htext]
    exact List.cons_ne_nil _ _

/-- The characters of a string read back up to its closing quote. -/
theorem readString_written {cs : List Char} (hcs : ∀ c ∈ cs, Text.half? c = none) (start : Nat)
    (rest : List Char) : ∀ {fuel : Nat} (position : Nat),
    (cs.flatMap (writtenChar true)).length < fuel → ∃ position',
      readString start fuel ⟨cs.flatMap (writtenChar true) ++ '"' :: rest, position⟩ =
        .ok (cs, ⟨rest, position'⟩) := by
  induction cs with
  | nil =>
    intro fuel position hfuel
    obtain ⟨fuel, rfl⟩ := Nat.exists_eq_succ_of_ne_zero (Nat.ne_zero_of_lt hfuel)
    exact ⟨position + 1, rfl⟩
  | cons c cs ih =>
    intro fuel position hfuel
    obtain ⟨hc, hcs⟩ := List.forall_mem_cons.mp hcs
    have hpositive := List.length_pos_of_ne_nil (writtenChar_ne_nil hc)
    rw [List.flatMap_cons, List.length_append] at hfuel
    obtain ⟨fuel, rfl⟩ := Nat.exists_eq_succ_of_ne_zero (Nat.ne_zero_of_lt hfuel)
    rw [List.flatMap_cons, List.append_assoc]
    obtain ⟨middle, hhead⟩ := readString_writtenChar hc
      (show cs.flatMap (writtenChar true) ++ '"' :: rest ≠ [] by simp)
    obtain ⟨position', htail⟩ := ih hcs middle (show _ < fuel by omega)
    refine ⟨position', hhead.trans ?_⟩
    rw [readOn, htail]
    rfl

end Strings

/-! ### White space -/

/-- The characters that stand between the parts of a value. -/
def spaces : List Char := [' ', '\t', '\n', '\r']

/-- The break before an item at a depth. -/
def lineBreak (depth : Nat) : List Char :=
  '\n' :: List.replicate (2 * depth) ' '

theorem lineBreak_subset (depth : Nat) : lineBreak depth ⊆ spaces := by
  intro x hx
  rcases List.mem_cons.mp hx with rfl | hx
  · decide
  · rw [List.eq_of_mem_replicate hx]
    decide

theorem skipSpace_append {gap : List Char} (hgap : gap ⊆ spaces) {c : Char} (hc : c ∉ spaces)
    (rest : List Char) (position : Nat) :
    ∃ position', (Spot.mk (gap ++ c :: rest) position).skipSpace = ⟨c :: rest, position'⟩ := by
  have hspace : ∀ x : Char, (x == ' ' || x == '\t' || x == '\n' || x == '\r') = true ↔ x ∈ spaces := by
    simp [spaces, or_assoc]
  have htake : (gap ++ c :: rest).takeWhile
      (fun c => c == ' ' || c == '\t' || c == '\n' || c == '\r') = gap := by
    rw [List.takeWhile_append_of_pos fun x hx => (hspace x).mpr (hgap hx),
      List.takeWhile_cons_of_neg (by exact mt (hspace c).mp hc), List.append_nil]
  refine ⟨position + gap.length, ?_⟩
  rw [Spot.skipSpace, htake, Spot.skip, List.drop_left]

theorem skipSpace_cons {c : Char} (hc : c ∉ spaces) (rest : List Char) (position : Nat) :
    ∃ position', (Spot.mk (c :: rest) position).skipSpace = ⟨c :: rest, position'⟩ :=
  skipSpace_append (List.nil_subset _) hc rest position

/-! ### Values -/

/-- A text that starts as a string, an array or an object does. -/
def Starts (text : List Char) : Prop :=
  ∃ c rest, text = c :: rest ∧ c ∈ ['"', '[', '\x7b']

theorem Starts.append {text : List Char} (h : Starts text) (rest : List Char) :
    Starts (text ++ rest) := by
  obtain ⟨c, cs, rfl, hc⟩ := h
  exact ⟨c, cs ++ rest, rfl, hc⟩

theorem Starts.ne_cons {text : List Char} (h : Starts text) {c : Char}
    (hc : c ∉ ['"', '[', '\x7b']) {rest : List Char} : text ≠ c :: rest := by
  obtain ⟨d, ds, rfl, hd⟩ := h
  intro heq
  exact hc ((List.cons.inj heq).1 ▸ hd)

theorem Starts.skipSpace {text : List Char} (h : Starts text) {gap : List Char}
    (hgap : gap ⊆ spaces) (position : Nat) :
    ∃ position', (Spot.mk (gap ++ text) position).skipSpace = ⟨text, position'⟩ := by
  obtain ⟨c, cs, rfl, hc⟩ := h
  have hspace : ∀ x ∈ ['"', '[', '\x7b'], x ∉ spaces := by decide
  exact skipSpace_append hgap (hspace c hc) cs position

/-- A text that reads as a value, whatever follows it. -/
structure ReadsBack (text : List Char) (v : Json) : Prop where
  starts : Starts text
  read : ∀ {fuel : Nat} (rest : List Char) (position : Nat), text.length ≤ fuel →
    ∃ position', readValue fuel ⟨text ++ rest, position⟩ = .ok (v, ⟨rest, position'⟩)

theorem half?_of_encodable {s : String} (hs : Text.encodable s = true) :
    ∀ c ∈ s.toList, Text.half? c = none := by
  simpa [Text.encodable] using hs

/-- A string in its quotes reads back from behind the first of them. -/
theorem readString_writtenString {s : String} (hs : Text.encodable s = true) (start : Nat)
    (rest : List Char) (position : Nat) :
    ∃ more position', (writtenString true s).toList ++ rest = '"' :: more ∧
      readString start (more.length + 1) ⟨more, position⟩ = .ok (s.toList, ⟨rest, position'⟩) := by
  have htext : (writtenString true s).toList ++ rest =
      '"' :: (s.toList.flatMap (writtenChar true) ++ '"' :: rest) := by
    simp [writtenString]
  have hfuel : (s.toList.flatMap (writtenChar true)).length <
      (s.toList.flatMap (writtenChar true) ++ '"' :: rest).length + 1 := by
    rw [List.length_append]
    omega
  obtain ⟨position', hread⟩ := readString_written (half?_of_encodable hs) start rest position hfuel
  exact ⟨_, position', htext, hread⟩

theorem starts_writtenString (s : String) : Starts (writtenString true s).toList := by
  rw [writtenString, String.toList_ofList]
  exact ⟨_, _, rfl, List.mem_cons_self⟩

theorem readsBack_string {s : String} (hs : Text.encodable s = true) :
    ReadsBack (writtenString true s).toList (.string s) := by
  refine ⟨starts_writtenString s, fun {fuel} rest position hfuel => ?_⟩
  have hpositive : 0 < fuel := by
    refine Nat.lt_of_lt_of_le ?_ hfuel
    simp [writtenString]
  obtain ⟨fuel, rfl⟩ := Nat.exists_eq_succ_of_ne_zero (Nat.ne_zero_of_lt hpositive)
  obtain ⟨more, position', htext, hread⟩ := readString_writtenString hs position rest (position + 1)
  refine ⟨position', ?_⟩
  rw [htext]
  simp only [readValue, Spot.skip, List.drop_succ_cons, List.drop_zero, hread, bind, Except.bind]
  rw [String.ofList_toList]
  rfl

/-- Texts on lines of their own at a depth. -/
def onLines (depth : Nat) (texts : List (List Char)) : List Char :=
  (',' :: lineBreak depth).intercalate texts

theorem onLines_singleton (depth : Nat) (text : List Char) : onLines depth [text] = text :=
  List.intercalate_singleton

theorem onLines_cons_cons (depth : Nat) (text text' : List Char) (texts : List (List Char)) :
    onLines depth (text :: text' :: texts) =
      text ++ ',' :: (lineBreak depth ++ onLines depth (text' :: texts)) := by
  rw [onLines, List.intercalate_cons_cons, List.append_assoc]
  rfl

theorem Starts.onLines {text : List Char} (h : Starts text) (depth : Nat) (texts : List (List Char)) :
    Starts (onLines depth (text :: texts)) := by
  rw [Json.onLines, Text.intercalate_cons]
  exact h.append _

theorem toList_enclose (depth : Nat) (opening closing : String) {items : List String}
    (hne : items ≠ []) :
    (Style.config.enclose depth opening closing items).toList =
      opening.toList ++ (lineBreak (depth + 1) ++ (onLines (depth + 1) (items.map String.toList) ++
        (lineBreak depth ++ closing.toList))) := by
  rw [Style.enclose, if_neg (by simpa using hne)]
  simp [Style.config, String.toList_intercalate, lineBreak, onLines]

section Loops

variable {f : Json → List Char} {inner : Nat} (outer : Nat)

theorem readItems_onLines (rest : List Char) {v : Json} {vs : List Json}
    (h : ∀ x ∈ v :: vs, ReadsBack (f x) x) : ∀ {fuel : Nat} (position : Nat),
    (onLines inner ((v :: vs).map f)).length < fuel → ∃ position', readItems fuel
      ⟨onLines inner ((v :: vs).map f) ++ (lineBreak outer ++ ']' :: rest), position⟩ =
        .ok (v :: vs, ⟨rest, position'⟩) := by
  induction vs generalizing v with
  | nil =>
    intro fuel position hfuel
    obtain ⟨fuel, rfl⟩ := Nat.exists_eq_succ_of_ne_zero (Nat.ne_zero_of_lt hfuel)
    rw [List.map_singleton, onLines_singleton] at hfuel ⊢
    obtain ⟨behind, hread⟩ := (h v List.mem_cons_self).read (lineBreak outer ++ ']' :: rest) position
      (Nat.le_of_lt_succ hfuel)
    obtain ⟨closing, hskip⟩ := skipSpace_append (lineBreak_subset outer) (show ']' ∉ spaces by decide)
      rest behind
    refine ⟨closing + 1, ?_⟩
    rw [readItems, hread]
    simp only [bind, Except.bind, hskip]
    rfl
  | cons w vs ih =>
    intro fuel position hfuel
    obtain ⟨fuel, rfl⟩ := Nat.exists_eq_succ_of_ne_zero (Nat.ne_zero_of_lt hfuel)
    obtain ⟨hv, hvs⟩ := List.forall_mem_cons.mp h
    rw [List.map_cons, List.map_cons, onLines_cons_cons, ← List.map_cons] at hfuel ⊢
    rw [List.length_append, List.length_cons, List.length_append] at hfuel
    rw [List.append_assoc, List.cons_append, List.append_assoc]
    obtain ⟨comma, hread⟩ := hv.read (',' :: (lineBreak inner ++ (onLines inner ((w :: vs).map f) ++
      (lineBreak outer ++ ']' :: rest)))) position (show _ ≤ fuel by omega)
    obtain ⟨comma', hskip⟩ := skipSpace_cons (show ',' ∉ spaces by decide) (lineBreak inner ++
      (onLines inner ((w :: vs).map f) ++ (lineBreak outer ++ ']' :: rest))) comma
    have hstarts : Starts (onLines inner ((w :: vs).map f) ++ (lineBreak outer ++ ']' :: rest)) :=
      ((hvs w List.mem_cons_self).starts.onLines inner (vs.map f)).append _
    obtain ⟨next, hnext⟩ := hstarts.skipSpace (lineBreak_subset inner) (comma' + 1)
    obtain ⟨position', hitems⟩ := ih hvs next (show _ < fuel by omega)
    refine ⟨position', ?_⟩
    rw [readItems, hread]
    simp only [bind, Except.bind, hskip, Spot.skip, List.drop_succ_cons, List.drop_zero, hnext, hitems]
    rfl

/-- A member on its line. -/
def memberText (f : Json → List Char) (m : String × Json) : List Char :=
  (writtenString true m.1).toList ++ ':' :: ' ' :: f m.2

/-- What is read behind one member. -/
def readMembersOn (fuel : Nat) (m : String × Json) (s : Spot) :
    Except Fault (List (String × Json) × Spot) :=
  let after := s.skipSpace
  match after.rest with
  | '\x7d' :: _ => .ok ([m], after.skip 1)
  | ',' :: _ => do
    let (ms, last) ← readMembers fuel (after.skip 1).skipSpace
    return (m :: ms, last)
  | _ => after.fault .expectedComma

theorem readMembers_memberText {m : String × Json} (hkey : Text.encodable m.1 = true)
    (hm : ReadsBack (f m.2) m.2) (rest : List Char) {fuel : Nat} (position : Nat)
    (hfuel : (memberText f m).length ≤ fuel) :
    ∃ behind, readMembers (fuel + 1) ⟨memberText f m ++ rest, position⟩ =
      readMembersOn fuel m ⟨rest, behind⟩ := by
  obtain ⟨more, colon, htext, hread⟩ := readString_writtenString hkey position
    (':' :: ' ' :: f m.2 ++ rest) (position + 1)
  obtain ⟨colon', hcolon⟩ := skipSpace_cons (show ':' ∉ spaces by decide) (' ' :: (f m.2 ++ rest))
    colon
  obtain ⟨value, hvalue⟩ := (hm.starts.append rest).skipSpace (show [' '] ⊆ spaces by decide)
    (colon' + 1)
  have hlength : (f m.2).length ≤ fuel := by
    rw [memberText, List.length_append, List.length_cons, List.length_cons] at hfuel
    omega
  obtain ⟨behind, hbehind⟩ := hm.read rest value hlength
  refine ⟨behind, ?_⟩
  rw [List.singleton_append] at hvalue
  rw [memberText, List.append_assoc, htext]
  simp only [readMembers, Spot.skip, List.drop_succ_cons, List.drop_zero, hread, bind, Except.bind,
    List.cons_append, hcolon, hvalue, hbehind, String.ofList_toList]
  rfl

theorem readMembers_onLines (rest : List Char) {m : String × Json} {ms : List (String × Json)}
    (h : ∀ x ∈ m :: ms, Text.encodable x.1 = true ∧ ReadsBack (f x.2) x.2) :
    ∀ {fuel : Nat} (position : Nat),
    (onLines inner ((m :: ms).map (memberText f))).length < fuel → ∃ position', readMembers fuel
      ⟨onLines inner ((m :: ms).map (memberText f)) ++ (lineBreak outer ++ '\x7d' :: rest), position⟩ =
        .ok (m :: ms, ⟨rest, position'⟩) := by
  induction ms generalizing m with
  | nil =>
    intro fuel position hfuel
    obtain ⟨hkey, hm⟩ := h m List.mem_cons_self
    obtain ⟨fuel, rfl⟩ := Nat.exists_eq_succ_of_ne_zero (Nat.ne_zero_of_lt hfuel)
    rw [List.map_singleton, onLines_singleton] at hfuel ⊢
    obtain ⟨behind, hread⟩ := readMembers_memberText hkey hm (lineBreak outer ++ '\x7d' :: rest)
      position (Nat.le_of_lt_succ hfuel)
    obtain ⟨closing, hskip⟩ := skipSpace_append (lineBreak_subset outer)
      (show '\x7d' ∉ spaces by decide) rest behind
    refine ⟨closing + 1, hread.trans ?_⟩
    simp only [readMembersOn, hskip]
    rfl
  | cons n ms ih =>
    intro fuel position hfuel
    obtain ⟨⟨hkey, hm⟩, hms⟩ := List.forall_mem_cons.mp h
    obtain ⟨fuel, rfl⟩ := Nat.exists_eq_succ_of_ne_zero (Nat.ne_zero_of_lt hfuel)
    rw [List.map_cons, List.map_cons, onLines_cons_cons, ← List.map_cons] at hfuel ⊢
    rw [List.length_append, List.length_cons, List.length_append] at hfuel
    rw [List.append_assoc, List.cons_append, List.append_assoc]
    obtain ⟨comma, hread⟩ := readMembers_memberText hkey hm (',' :: (lineBreak inner ++
      (onLines inner ((n :: ms).map (memberText f)) ++ (lineBreak outer ++ '\x7d' :: rest)))) position
      (show _ ≤ fuel by omega)
    obtain ⟨comma', hskip⟩ := skipSpace_cons (show ',' ∉ spaces by decide) (lineBreak inner ++
      (onLines inner ((n :: ms).map (memberText f)) ++ (lineBreak outer ++ '\x7d' :: rest))) comma
    have hstarts : Starts (onLines inner ((n :: ms).map (memberText f)) ++
        (lineBreak outer ++ '\x7d' :: rest)) :=
      (((starts_writtenString n.1).append _).onLines inner (ms.map (memberText f))).append _
    obtain ⟨next, hnext⟩ := hstarts.skipSpace (lineBreak_subset inner) (comma' + 1)
    obtain ⟨position', hmembers⟩ := ih hms next (show _ < fuel by omega)
    refine ⟨position', hread.trans ?_⟩
    simp only [readMembersOn, hskip, Spot.skip, List.drop_succ_cons, List.drop_zero, hnext, hmembers,
      bind, Except.bind]
    rfl

theorem readsBack_array {v : Json} {vs : List Json} (h : ∀ x ∈ v :: vs, ReadsBack (f x) x) :
    ReadsBack ('[' :: (lineBreak inner ++ (onLines inner ((v :: vs).map f) ++
      (lineBreak outer ++ [']'])))) (.array (v :: vs)) := by
  refine ⟨⟨_, _, rfl, by decide⟩, fun {fuel} rest position hfuel => ?_⟩
  obtain ⟨fuel, rfl⟩ := Nat.exists_eq_succ_of_ne_zero (Nat.ne_zero_of_lt hfuel)
  have hlength : (onLines inner ((v :: vs).map f)).length < fuel := by
    simp only [List.length_cons, List.length_append] at hfuel
    omega
  have hstarts : Starts (onLines inner ((v :: vs).map f) ++ (lineBreak outer ++ ']' :: rest)) :=
    ((h v List.mem_cons_self).starts.onLines inner (vs.map f)).append _
  obtain ⟨first, hskip⟩ := hstarts.skipSpace (lineBreak_subset inner) (position + 1)
  obtain ⟨position', hitems⟩ := readItems_onLines outer rest h first hlength
  refine ⟨position', ?_⟩
  simp only [List.cons_append, List.append_assoc, List.nil_append, readValue, Spot.skip,
    List.drop_succ_cons, List.drop_zero, hskip, hitems, bind, Except.bind]
  split
  · rename_i heq
    exact absurd heq (hstarts.ne_cons (by decide))
  · rfl

theorem readsBack_object {m : String × Json} {ms : List (String × Json)}
    (hnodup : (Assoc.keys (m :: ms)).Nodup)
    (h : ∀ x ∈ m :: ms, Text.encodable x.1 = true ∧ ReadsBack (f x.2) x.2) :
    ReadsBack ('\x7b' :: (lineBreak inner ++ (onLines inner ((m :: ms).map (memberText f)) ++
      (lineBreak outer ++ ['\x7d'])))) (.object (m :: ms)) := by
  refine ⟨⟨_, _, rfl, by decide⟩, fun {fuel} rest position hfuel => ?_⟩
  obtain ⟨fuel, rfl⟩ := Nat.exists_eq_succ_of_ne_zero (Nat.ne_zero_of_lt hfuel)
  have hlength : (onLines inner ((m :: ms).map (memberText f))).length < fuel := by
    simp only [List.length_cons, List.length_append] at hfuel
    omega
  have hstarts : Starts (onLines inner ((m :: ms).map (memberText f)) ++
      (lineBreak outer ++ '\x7d' :: rest)) :=
    (((starts_writtenString m.1).append _).onLines inner (ms.map (memberText f))).append _
  obtain ⟨first, hskip⟩ := hstarts.skipSpace (lineBreak_subset inner) (position + 1)
  obtain ⟨position', hmembers⟩ := readMembers_onLines outer rest h first hlength
  refine ⟨position', ?_⟩
  simp only [List.cons_append, List.append_assoc, List.nil_append, readValue, Spot.skip,
    List.drop_succ_cons, List.drop_zero, hskip, hmembers, bind, Except.bind]
  split
  · rename_i heq
    exact absurd heq (hstarts.ne_cons (by decide))
  · rw [Assoc.ofPairs_of_nodup hnodup]
    rfl

end Loops

theorem readsBack_nil :
    ReadsBack "[]".toList (.array []) ∧ ReadsBack "\x7b\x7d".toList (.object []) := by
  refine ⟨⟨⟨_, _, rfl, by decide⟩, fun {fuel} rest position hfuel => ?_⟩,
    ⟨⟨_, _, rfl, by decide⟩, fun {fuel} rest position hfuel => ?_⟩⟩
  all_goals obtain ⟨fuel, rfl⟩ := Nat.exists_eq_succ_of_ne_zero (Nat.ne_zero_of_lt hfuel)
  · obtain ⟨closing, hskip⟩ := skipSpace_cons (show ']' ∉ spaces by decide) rest (position + 1)
    refine ⟨closing + 1, ?_⟩
    rw [show "[]".toList ++ rest = '[' :: ']' :: rest from rfl]
    simp only [readValue, Spot.skip, List.drop_succ_cons, List.drop_zero, hskip]
  · obtain ⟨closing, hskip⟩ := skipSpace_cons (show '\x7d' ∉ spaces by decide) rest (position + 1)
    refine ⟨closing + 1, ?_⟩
    rw [show "\x7b\x7d".toList ++ rest = '\x7b' :: '\x7d' :: rest from rfl]
    simp only [readValue, Spot.skip, List.drop_succ_cons, List.drop_zero, hskip]

/-! ### Whole values -/

/-- A value that is made of texts, arrays and objects; no text holds half a character, and no object
has a key twice. -/
inductive Textual : Json → Prop where
  | string {s : String} (encodable : Text.encodable s = true) : Textual (.string s)
  | array {xs : List Json} (items : ∀ x ∈ xs, Textual x) : Textual (.array xs)
  | object {ms : List (String × Json)} (nodup : (Assoc.keys ms).Nodup)
      (encodable : ∀ m ∈ ms, Text.encodable m.1 = true) (values : ∀ m ∈ ms, Textual m.2) :
      Textual (.object ms)

theorem writeItems_eq (style : Style) (depth : Nat) (xs : List Json) :
    writeItems style depth xs = xs.map (writeAt style depth) := by
  induction xs with
  | nil => rw [writeItems, List.map_nil]
  | cons x xs ih => rw [writeItems, ih, List.map_cons]

theorem toList_writeMembers (depth : Nat) (ms : List (String × Json)) :
    (writeMembers .config depth ms).map String.toList =
      ms.map (memberText fun v => (writeAt .config depth v).toList) := by
  induction ms with
  | nil => rw [writeMembers, List.map_nil, List.map_nil]
  | cons m ms ih =>
    rw [writeMembers, List.map_cons, List.map_cons, ih, String.toList_append, String.toList_append,
      List.append_assoc]
    rfl

theorem readsBack_writeAt {v : Json} (h : Textual v) (depth : Nat) :
    ReadsBack (writeAt .config depth v).toList v := by
  induction h generalizing depth with
  | string hs =>
    rw [writeAt]
    exact readsBack_string hs
  | @array xs _ ih =>
    rw [writeAt, writeItems_eq]
    cases xs with
    | nil => exact readsBack_nil.1
    | cons v vs =>
      rw [toList_enclose depth _ _ (by simp), List.map_map]
      exact readsBack_array depth fun x hx => ih x hx (depth + 1)
  | @object ms hnodup hkeys _ ih =>
    rw [writeAt]
    cases ms with
    | nil =>
      rw [writeMembers]
      exact readsBack_nil.2
    | cons m ms =>
      rw [toList_enclose depth _ _ (by simp [writeMembers]), toList_writeMembers]
      exact readsBack_object depth hnodup fun x hx => ⟨hkeys x hx, ih x hx (depth + 1)⟩

/-- **A value of texts reads back** from its indented form. -/
theorem parse_write {v : Json} (h : Textual v) : parse (v.write .config) = .ok v := by
  obtain ⟨hstarts, hread⟩ := readsBack_writeAt h 0
  obtain ⟨first, hskip⟩ := hstarts.skipSpace (List.nil_subset spaces) 0
  obtain ⟨last, hvalue⟩ := hread [] first (Nat.le_succ _)
  rw [List.nil_append] at hskip
  rw [List.append_nil] at hvalue
  have hend : (Spot.mk [] last).skipSpace.rest.isEmpty = true := rfl
  unfold parse write
  dsimp only
  split
  · rename_i heq
    exact absurd heq (hstarts.ne_cons (by decide))
  · rw [hskip]
    simp only [Nat.succ_eq_add_one] at hvalue
    simp only [hvalue, bind, Except.bind, hend, if_true]
    rfl

/-! ### Bytes -/

open Text.Utf8 (IsAscii)

theorem isAscii_codeEscape {n : Nat} (hn : n < 0x10000) : IsAscii (codeEscape n) := by
  have hdigit : ∀ d < 16, (Nat.digitChar d).toNat < 0x80 ∧ Nat.digitChar d ≠ '\r' := by decide
  rw [codeEscape, hexWidth_four hn]
  simp only [IsAscii, List.forall_mem_cons]
  exact ⟨by decide, by decide, hdigit _ (by omega), hdigit _ (by omega), hdigit _ (by omega),
    hdigit _ (by omega), fun _ h => absurd h List.not_mem_nil⟩

theorem isAscii_writtenChar {c : Char} (hc : Text.half? c = none) : IsAscii (writtenChar true c) := by
  have hvalid : c.toNat < 0xD800 ∨ 0xDFFF < c.toNat ∧ c.toNat < 0x110000 := c.valid
  cases form_writtenChar hc with
  | short e he htext =>
    rw [htext]
    have hletter : e.toNat < 0x80 ∧ e ≠ '\r' := by
      unfold escaped? at he
      split at he <;> first | decide | cases he
    exact List.forall_mem_cons.mpr ⟨by decide, List.forall_mem_singleton.mpr hletter⟩
  | plain hlow hhigh _ _ htext =>
    rw [htext]
    refine List.forall_mem_singleton.mpr ⟨hhigh, ?_⟩
    rintro rfl
    exact absurd hlow (by decide)
  | code hn htext => exact htext ▸ isAscii_codeEscape hn
  | pair _ htext =>
    rw [htext]
    exact List.forall_mem_append.mpr ⟨isAscii_codeEscape (by omega), isAscii_codeEscape (by omega)⟩

theorem isAscii_writtenString {s : String} (hs : Text.encodable s = true) :
    IsAscii (writtenString true s).toList := by
  rw [writtenString, String.toList_ofList]
  refine List.forall_mem_append.mpr ⟨List.forall_mem_cons.mpr ⟨by decide, ?_⟩, by simp⟩
  intro x hx
  obtain ⟨c, hc, hx⟩ := List.mem_flatMap.mp hx
  exact isAscii_writtenChar (half?_of_encodable hs c hc) x hx

theorem isAscii_lineBreak (depth : Nat) : IsAscii (lineBreak depth) := by
  refine List.forall_mem_cons.mpr ⟨by decide, fun x hx => ?_⟩
  rw [List.eq_of_mem_replicate hx]
  decide

theorem isAscii_enclose (depth : Nat) {opening closing : String} {items : List String}
    (hopening : IsAscii opening.toList) (hclosing : IsAscii closing.toList)
    (h : ∀ item ∈ items, IsAscii item.toList) :
    IsAscii (Style.config.enclose depth opening closing items).toList := by
  by_cases hne : items = []
  · rw [hne, Style.enclose, if_pos List.isEmpty_nil, String.toList_append]
    exact List.forall_mem_append.mpr ⟨hopening, hclosing⟩
  · rw [toList_enclose depth _ _ hne]
    refine List.forall_mem_append.mpr ⟨hopening, List.forall_mem_append.mpr ⟨isAscii_lineBreak _,
      List.forall_mem_append.mpr ⟨fun c hc => ?_,
        List.forall_mem_append.mpr ⟨isAscii_lineBreak _, hclosing⟩⟩⟩⟩
    rcases Text.mem_intercalate hc with hc | ⟨_, hitem, hc⟩
    · rcases List.mem_cons.mp hc with rfl | hc
      · decide
      · exact isAscii_lineBreak _ c hc
    · obtain ⟨item, hmem, rfl⟩ := List.mem_map.mp hitem
      exact h item hmem c hc

theorem isAscii_writeAt {v : Json} (h : Textual v) (depth : Nat) :
    IsAscii (writeAt .config depth v).toList := by
  induction h generalizing depth with
  | string hs =>
    rw [writeAt]
    exact isAscii_writtenString hs
  | array _ ih =>
    rw [writeAt, writeItems_eq]
    refine isAscii_enclose depth (by decide) (by decide) fun item hitem => ?_
    obtain ⟨x, hx, rfl⟩ := List.mem_map.mp hitem
    exact ih x hx (depth + 1)
  | @object ms _ hkeys _ ih =>
    rw [writeAt]
    refine isAscii_enclose depth (by decide) (by decide) fun item hitem => ?_
    have htext := List.mem_map_of_mem (f := String.toList) hitem
    rw [toList_writeMembers] at htext
    obtain ⟨m, hm, htext⟩ := List.mem_map.mp htext
    rw [← htext, memberText]
    exact List.forall_mem_append.mpr ⟨isAscii_writtenString (hkeys m hm),
      List.forall_mem_cons.mpr ⟨by decide, List.forall_mem_cons.mpr ⟨by decide, ih m hm (depth + 1)⟩⟩⟩

/-- **The bytes of a value** are the bytes of a text. -/
theorem decode_write {v : Json} (h : Textual v) :
    Text.Utf8.decode (v.write .config).toUTF8 = .ok (v.write .config) :=
  Text.Utf8.decode_toUTF8 (isAscii_writeAt h 0)

end Rigging.Json
