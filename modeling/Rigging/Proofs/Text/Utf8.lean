import Rigging.Text.Utf8

/-!
# The bytes of an ASCII text

A text of ASCII characters without a carriage return is what its bytes decode to.
-/

namespace Rigging.Text.Utf8

theorem toList_loop (bytes : ByteArray) (i : Nat) (done : List UInt8) :
    ByteArray.toList.loop bytes i done = done.reverse ++ bytes.data.toList.drop i := by
  induction h : bytes.size - i generalizing i done with
  | zero =>
    have hi : ¬i < bytes.size := by omega
    rw [ByteArray.toList.loop, if_neg hi, List.drop_eq_nil_of_le, List.append_nil]
    exact Nat.le_of_not_lt hi
  | succ n ih =>
    have hi : i < bytes.size := by omega
    have hlength : i < bytes.data.toList.length := hi
    have hget : bytes.get! i = bytes.data.toList[i] := getElem!_pos bytes.data i hi
    rw [ByteArray.toList.loop, if_pos hi, ih _ _ (by omega), List.drop_eq_getElem_cons hlength, hget,
      List.reverse_cons, List.append_assoc]
    rfl

theorem toList_toUTF8 (text : String) : text.toUTF8.toList = text.toList.flatMap String.utf8EncodeChar := by
  rw [String.toUTF8, ← String.utf8Encode_toList, ByteArray.toList, toList_loop, List.utf8Encode,
    List.data_toByteArray]
  rfl

/-- Joining line ends keeps characters among which there is no carriage return. -/
theorem joinLineEnds_of_not_mem {cs : List Char} (h : '\r' ∉ cs) : joinLineEnds cs = cs := by
  fun_induction joinLineEnds cs with
  | case1 => rfl
  | case2 => simp at h
  | case3 => simp at h
  | case4 c cs _ _ ih => rw [ih fun hmem => h (List.mem_cons_of_mem _ hmem)]

/-- Characters that are one byte each and no carriage return. -/
def IsAscii (cs : List Char) : Prop :=
  ∀ c ∈ cs, c.toNat < 0x80 ∧ c ≠ '\r'

instance (cs : List Char) : Decidable (IsAscii cs) :=
  inferInstanceAs (Decidable (∀ c ∈ cs, c.toNat < 0x80 ∧ c ≠ '\r'))

theorem decodeFrom_ascii {cs : List Char} (h : IsAscii cs) (position : Nat) :
    decodeFrom position none (cs.flatMap String.utf8EncodeChar) = .ok cs := by
  induction cs generalizing position with
  | nil => rfl
  | cons c cs ih =>
    obtain ⟨⟨hc, _⟩, hcs⟩ := List.forall_mem_cons.mp h
    have hbyte : String.utf8EncodeChar c = [UInt8.ofNat c.toNat] := if_pos (Nat.le_of_lt_succ hc)
    have hvalue : (UInt8.ofNat c.toNat).toNat = c.toNat := by
      rw [UInt8.toNat_ofNat']
      exact Nat.mod_eq_of_lt (by omega)
    rw [List.flatMap_cons, hbyte, List.singleton_append, decodeFrom]
    rw [hvalue, lead?, if_pos hc]
    dsimp only
    rw [if_pos rfl, ih hcs, Char.ofNat_toNat]
    rfl

theorem decode_toUTF8 {text : String} (h : IsAscii text.toList) :
    decode text.toUTF8 = .ok text := by
  have hreturn : '\r' ∉ text.toList := fun hmem => (h _ hmem).2 rfl
  rw [decode, toList_toUTF8, decodeFrom_ascii h]
  show Except.ok (String.ofList (joinLineEnds text.toList)) = _
  rw [joinLineEnds_of_not_mem hreturn, String.ofList_toList]

end Rigging.Text.Utf8
