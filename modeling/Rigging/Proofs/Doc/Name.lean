import Mathlib.Data.List.TakeDrop
import Mathlib.Data.List.TakeWhile
import Rigging.TypeExpr

/-!
# Names in doc comments

The characters of names and tags are never blank.  `NameOf` says how the name of a parameter can stand at
the head of a text: behind an opening bracket, without brackets, or in front of a closing bracket that
nothing has opened and that becomes a part of the name.  Just these names are read
(`paramName?_eq_some_iff`), so a written name is read back from in front of a space.
-/

namespace Rigging

namespace Doc

open Rigging.Text

/-! ### Characters -/

theorem toNat_of_isNamePart {c : Char} (h : isNamePart c = true) :
    0x24 ≤ c.toNat ∧ c.toNat ≤ 0x7A := by
  simp only [isNamePart, isNameStart, isTagLetter, Char.isDigit, Bool.or_eq_true, Bool.and_eq_true,
    decide_eq_true_eq, beq_iff_eq, Char.le_def, UInt32.le_iff_toNat_le, ge_iff_le] at h
  have hval : c.val.toNat = c.toNat := rfl
  rcases h with (((h | h) | rfl) | rfl) | h
  · have h1 : (0x61 : Nat) ≤ c.val.toNat := h.1
    have h2 : c.val.toNat ≤ 0x7A := h.2
    omega
  · have h1 : (0x41 : Nat) ≤ c.val.toNat := h.1
    have h2 : c.val.toNat ≤ 0x5A := h.2
    omega
  · decide
  · decide
  · have h1 : (0x30 : Nat) ≤ c.val.toNat := h.1
    have h2 : c.val.toNat ≤ 0x39 := h.2
    omega

theorem isBlank_of_isNamePart {c : Char} (h : isNamePart c = true) : Text.isBlank c = false := by
  obtain ⟨h1, h2⟩ := toNat_of_isNamePart h
  simp only [Text.isBlank, Bool.or_eq_false_iff, Bool.and_eq_false_iff, decide_eq_false_iff_not,
    beq_eq_false_iff_ne, ne_eq]
  omega

theorem isNamePart_of_isNameStart {c : Char} (h : isNameStart c = true) : isNamePart c = true := by
  rw [isNamePart, h, Bool.true_or]

theorem isNameStart_of_isTagLetter {c : Char} (h : isTagLetter c = true) : isNameStart c = true := by
  rw [isNameStart, h, Bool.true_or, Bool.true_or]

theorem isBlank_of_isTagLetter {c : Char} (h : isTagLetter c = true) : isBlank c = false :=
  isBlank_of_isNamePart (isNamePart_of_isNameStart (isNameStart_of_isTagLetter h))

theorem isTagLetter_of_isBlank {c : Char} (h : isBlank c = true) : isTagLetter c = false := by
  cases hc : isTagLetter c with
  | false => rfl
  | true => rw [isBlank_of_isTagLetter hc] at h; cases h

end Doc

namespace TypeExpr

theorem isNamePart_of_isName {cs : List Char} (h : isName cs = true) :
    ∀ c ∈ cs, Doc.isNamePart c = true := by
  cases cs with
  | nil => exact fun _ hc => nomatch hc
  | cons c cs =>
    rw [isName, Bool.and_eq_true, List.all_eq_true] at h
    intro d hd
    rcases List.mem_cons.mp hd with rfl | hd
    · exact Doc.isNamePart_of_isNameStart h.1
    · exact h.2 d hd

end TypeExpr

namespace Doc

open TypeExpr (isName)

/-! ### Names at the head -/

/-- Cutting a text where a class of characters ends. -/
theorem span_append {p : Char → Bool} {cs rest : List Char} (hcs : ∀ c ∈ cs, p c = true)
    (hrest : ∀ c, rest.head? = some c → p c = false) : (cs ++ rest).span p = (cs, rest) := by
  rw [List.span_eq_takeWhile_dropWhile, List.takeWhile_append_of_pos hcs,
    List.dropWhile_append_of_pos hcs]
  cases rest with
  | nil => simp
  | cons d ds =>
    have hd : ¬p d = true := by rw [hrest d rfl]; exact Bool.false_ne_true
    rw [List.takeWhile_cons_of_neg hd, List.dropWhile_cons_of_neg hd, List.append_nil]

/-- The text does not go on with a character of names. -/
def StopsName (rest : List Char) : Prop :=
  ∀ c, rest.head? = some c → isNamePart c = false

theorem name?_append {name rest : List Char} (h : isName name = true) (hrest : StopsName rest) :
    name? (name ++ rest) = some (name, rest) := by
  cases name with
  | nil => cases h
  | cons c cs =>
    rw [isName, Bool.and_eq_true, List.all_eq_true] at h
    simp only [name?, List.cons_append, h.1, span_append h.2 hrest, if_true]

theorem name?_eq_some {cs name rest : List Char} (h : name? cs = some (name, rest)) :
    cs = name ++ rest ∧ isName name = true ∧ StopsName rest := by
  cases cs with
  | nil => cases h
  | cons c cs =>
    rw [name?] at h
    split at h
    · rename_i hc
      rw [List.span_eq_takeWhile_dropWhile] at h
      obtain ⟨rfl, rfl⟩ := Prod.mk.inj (Option.some.inj h)
      refine ⟨?_, ?_, fun d hd => ?_⟩
      · rw [List.cons_append, List.takeWhile_append_dropWhile]
      · rw [isName, hc, Bool.true_and, List.all_eq_true]
        exact fun d hd => List.mem_takeWhile_imp hd
      · have hstop := List.head?_dropWhile_not isNamePart cs
        rw [hd] at hstop
        simpa using hstop
    · cases h

/-! ### Names of parameters -/

/-- The name of a parameter at the head of a text, whether it is optional, and the rest. -/
inductive NameOf : List Char → List Char → Bool → List Char → Prop
  | opened {name rest : List Char} (proper : isName name = true) (stops : StopsName rest) :
      NameOf ('[' :: (name ++ rest)) name true ((closing? rest).getD rest)
  | plain {name rest : List Char} (proper : isName name = true) (stops : StopsName rest)
      (unclosed : rest.head? ≠ some ']') : NameOf (name ++ rest) name false rest
  | closed {name : List Char} (proper : isName name = true) (rest : List Char) :
      NameOf (name ++ ']' :: rest) (name ++ [']']) false rest

theorem paramName?_of_ne {c : Char} (hc : c ≠ '[') (cs : List Char) :
    paramName? (c :: cs) = (do
      let (name, rest) ← name? (c :: cs)
      match rest with
      | ']' :: rest => return (name ++ [']'], false, rest)
      | _ => return (name, false, rest)) := by
  unfold paramName?
  split
  · rename_i heq
    exact absurd (List.cons.inj heq).1 hc
  · rfl

theorem ne_bracket_of_isName {c : Char} {cs : List Char} (h : isName (c :: cs) = true) : c ≠ '[' := by
  rintro rfl
  rw [isName] at h
  exact absurd h (by simp [show isNameStart '[' = false by decide])

theorem stopsName_bracket (rest : List Char) : StopsName (']' :: rest) := by
  intro c hc
  rw [← Option.some.inj hc]
  decide

theorem NameOf.paramName?_eq {cs name rest : List Char} {optional : Bool}
    (h : NameOf cs name optional rest) : paramName? cs = some (name, optional, rest) := by
  cases h with
  | @opened _ rest proper stops =>
    show (name? (name ++ rest) >>= fun x => _) = _
    rw [name?_append proper stops]
    rfl
  | plain proper stops unclosed =>
    have hread := name?_append proper stops
    cases name with
    | nil => cases proper
    | cons c cs =>
      rw [List.cons_append] at hread ⊢
      rw [paramName?_of_ne (ne_bracket_of_isName proper), hread, Option.bind_eq_bind, Option.bind_some]
      dsimp only
      split
      · exact absurd rfl unclosed
      · rfl
  | @closed name proper =>
    have hread := name?_append proper (stopsName_bracket rest)
    cases name with
    | nil => cases proper
    | cons c cs =>
      rw [List.cons_append] at hread ⊢
      rw [paramName?_of_ne (ne_bracket_of_isName proper), hread]
      rfl

/-- **The names of parameters that are read are those that stand there.** -/
theorem paramName?_eq_some_iff {cs name rest : List Char} {optional : Bool} :
    paramName? cs = some (name, optional, rest) ↔ NameOf cs name optional rest := by
  refine ⟨fun h => ?_, NameOf.paramName?_eq⟩
  unfold paramName? at h
  split at h
  · obtain ⟨⟨n, r⟩, hn, hout⟩ := Option.bind_eq_some_iff.mp h
    obtain ⟨rfl, proper, stops⟩ := name?_eq_some hn
    obtain ⟨rfl, hpair⟩ := Prod.mk.inj (Option.some.inj hout)
    obtain ⟨rfl, rfl⟩ := Prod.mk.inj hpair
    exact .opened proper stops
  · obtain ⟨⟨n, r⟩, hn, hout⟩ := Option.bind_eq_some_iff.mp h
    obtain ⟨rfl, proper, stops⟩ := name?_eq_some hn
    dsimp only at hout
    split at hout
    · obtain ⟨rfl, hpair⟩ := Prod.mk.inj (Option.some.inj hout)
      obtain ⟨rfl, rfl⟩ := Prod.mk.inj hpair
      exact .closed proper _
    · rename_i hunclosed
      obtain ⟨rfl, hpair⟩ := Prod.mk.inj (Option.some.inj hout)
      obtain ⟨rfl, rfl⟩ := Prod.mk.inj hpair
      refine .plain proper stops fun hhead => ?_
      obtain ⟨tail, htail⟩ := List.head?_eq_some_iff.mp hhead
      exact hunclosed tail htail

/-- A parameter's name: a proper name, behind which a stray closing bracket may stand when it is not
optional. -/
def IsParamName (optional : Bool) (name : List Char) : Prop :=
  ∃ n, isName n = true ∧ (name = n ∨ optional = false ∧ name = n ++ [']'])

/-- A parameter's name as it is written. -/
def nameText (optional : Bool) (name : List Char) : List Char :=
  if optional then '[' :: (name ++ [']']) else name

/-- **A parameter's name is read back** from in front of a space. -/
theorem paramName?_append {optional : Bool} {name rest : List Char} (h : IsParamName optional name)
    (hrest : ∀ c, rest.head? = some c → c = ' ') :
    paramName? (nameText optional name ++ rest) = some (name, optional, rest) := by
  obtain ⟨n, hn, hname⟩ := h
  rw [paramName?_eq_some_iff]
  cases optional with
  | true =>
    obtain rfl : name = n := hname.resolve_right fun h => Bool.false_ne_true h.1.symm
    rw [nameText, if_pos rfl, List.cons_append, List.append_assoc]
    exact .opened hn (stopsName_bracket rest)
  | false =>
    rw [nameText, if_neg Bool.false_ne_true]
    rcases hname with rfl | ⟨_, rfl⟩
    · refine .plain hn (fun c hc => ?_) fun hbracket => ?_
      · rw [hrest c hc]
        decide
      · exact absurd (hrest _ hbracket) (by decide)
    · rw [List.append_assoc]
      exact .closed hn rest

theorem closing?_eq_some {cs rest : List Char} (h : closing? cs = some rest) : rest <:+ cs := by
  unfold closing? at h
  split at h
  · obtain rfl := Option.some.inj h
    exact List.suffix_cons _ _
  · rename_i cs
    split at h
    · rename_i rest' hdrop
      obtain rfl := Option.some.inj h
      have hsuffix : ']' :: rest' <:+ cs := hdrop ▸ List.dropWhile_suffix _
      exact (List.suffix_cons _ _).trans (hsuffix.trans (List.suffix_cons _ _))
    · cases h
  · cases h

/-- **What is read as a name is one**, and the rest stands behind it. -/
theorem paramName?_eq_some {cs name rest : List Char} {optional : Bool}
    (h : paramName? cs = some (name, optional, rest)) :
    IsParamName optional name ∧ rest <:+ cs := by
  cases paramName?_eq_some_iff.mp h with
  | @opened _ r proper _ =>
    refine ⟨⟨name, proper, Or.inl rfl⟩, ?_⟩
    have hrest : (closing? r).getD r <:+ r := by
      cases hclosing : closing? r with
      | none => exact List.suffix_rfl
      | some r' => exact closing?_eq_some hclosing
    exact hrest.trans ((List.suffix_append name r).trans (List.suffix_cons _ _))
  | plain proper _ _ => exact ⟨⟨name, proper, Or.inl rfl⟩, List.suffix_append name _⟩
  | @closed n proper =>
    exact ⟨⟨n, proper, Or.inr ⟨rfl, rfl⟩⟩, (List.suffix_cons _ _).trans (List.suffix_append n _)⟩

end Doc

end Rigging
