/-!
# Half characters

An escape may name one half of a surrogate pair without the other.  Such a half is no character,
and a text that holds one cannot be encoded.  It is carried in a text as a stand-in from the last
private use plane, so that texts stay lists of characters.
-/

namespace Rigging.Text

/-- A first half of a pair. -/
def isHighHalf (n : Nat) : Bool :=
  0xD800 ≤ n && n < 0xDC00

/-- A second half of a pair. -/
def isLowHalf (n : Nat) : Bool :=
  0xDC00 ≤ n && n < 0xE000

/-- The code point that two halves stand for. -/
def joinHalves (high low : Nat) : Nat :=
  0x10000 + (high - 0xD800) * 0x400 + (low - 0xDC00)

/-- The character of a code point; for a half its stand-in. -/
def charOf (n : Nat) : Char :=
  if 0xD800 ≤ n && n < 0xE000 then Char.ofNat (n - 0xD800 + 0x10E000) else Char.ofNat n

/-- The code point of a character is no half, so that it gives the character. -/
theorem charOf_toNat (c : Char) : charOf c.toNat = c := by
  have hvalid : c.toNat < 0xD800 ∨ 0xDFFF < c.toNat ∧ c.toNat < 0x110000 := c.valid
  have hhalf : ¬(0xD800 ≤ c.toNat && c.toNat < 0xE000) = true := by
    simp only [Bool.and_eq_true, decide_eq_true_eq]
    omega
  rw [charOf, if_neg hhalf, Char.ofNat_toNat]

/-- The half that a character stands in for. -/
def half? (c : Char) : Option Nat :=
  if 0x10E000 ≤ c.toNat && c.toNat < 0x10E800 then some (c.toNat - 0x10E000 + 0xD800) else none

/-- Whether a text can be encoded: it holds no half character. -/
def encodable (s : String) : Bool :=
  s.toList.all fun c => (half? c).isNone

end Rigging.Text
