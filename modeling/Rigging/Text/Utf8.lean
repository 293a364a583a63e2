/-!
# Reading UTF-8

Bytes are read strictly: a byte that starts no character, a character broken off by a byte that
cannot continue it, and a character broken off by the end of the data are faults.  A fault spans
the bytes that were still acceptable, so that its position and extent say where the reading went
wrong.  `decode` also joins the three line ends of text files into one.
-/

namespace Rigging.Text.Utf8

/-- Why a byte sequence is not UTF-8. -/
inductive Reason where
  | invalidStart
  | invalidContinuation
  | unexpectedEnd
deriving DecidableEq, Repr

/-- A fault: the position of its first byte, that byte, how many bytes it spans, and the reason. -/
structure Fault where
  position : Nat
  byte : UInt8
  extent : Nat
  reason : Reason
deriving DecidableEq, Repr

/-- The words for a reason. -/
def Reason.message : Reason → String
  | .invalidStart => "invalid start byte"
  | .invalidContinuation => "invalid continuation byte"
  | .unexpectedEnd => "unexpected end of data"

/-- A byte as two lower-case hexadecimal digits. -/
def hexByte (b : UInt8) : String :=
  let digits := Nat.toDigits 16 b.toNat
  String.ofList (List.replicate (2 - digits.length) '0' ++ digits)

/-- The message of a fault: one byte is shown, several are given by their positions. -/
def Fault.message (f : Fault) : String :=
  "'utf-8' codec can't decode " ++
    (if f.extent ≤ 1 then
      "byte 0x" ++ hexByte f.byte ++ " in position " ++ toString f.position
    else
      "bytes in position " ++ toString f.position ++ "-" ++ toString (f.position + f.extent - 1)) ++
    ": " ++ f.reason.message

/-- What the first byte of a character announces: how many bytes follow, the bits it gives, and
the range of the byte after it (narrower than the general one where a shorter spelling, a
surrogate or too large a value would result). -/
structure Lead where
  more : Nat
  bits : Nat
  low : Nat
  high : Nat

/-- The announcement of a first byte, if it can start a character. -/
def lead? (b : Nat) : Option Lead :=
  if b < 0x80 then some ⟨0, b, 0x80, 0xBF⟩
  else if b < 0xC2 then none
  else if b < 0xE0 then some ⟨1, b - 0xC0, 0x80, 0xBF⟩
  else if b = 0xE0 then some ⟨2, 0, 0xA0, 0xBF⟩
  else if b = 0xED then some ⟨2, 0xD, 0x80, 0x9F⟩
  else if b < 0xF0 then some ⟨2, b - 0xE0, 0x80, 0xBF⟩
  else if b = 0xF0 then some ⟨3, 0, 0x90, 0xBF⟩
  else if b < 0xF4 then some ⟨3, b - 0xF0, 0x80, 0xBF⟩
  else if b = 0xF4 then some ⟨3, 4, 0x80, 0x8F⟩
  else none

/-- Reads characters.  Between characters `pending` is `none`; inside one it holds the first byte
and its position, the bytes taken so far, the bytes still to come, the bits so far, and the range
of the next byte. -/
def decodeFrom (pos : Nat) (pending : Option (UInt8 × Nat × Nat × Lead)) :
    List UInt8 → Except Fault (List Char)
  | [] =>
    match pending with
    | none => .ok []
    | some (first, start, taken, _) => .error ⟨start, first, taken, .unexpectedEnd⟩
  | b :: bs =>
    let n := b.toNat
    match pending with
    | none =>
      match lead? n with
      | none => .error ⟨pos, b, 1, .invalidStart⟩
      | some l =>
        if l.more = 0 then (Char.ofNat l.bits :: ·) <$> decodeFrom (pos + 1) none bs
        else decodeFrom (pos + 1) (some (b, pos, 1, l)) bs
    | some (first, start, taken, l) =>
      if l.low ≤ n && n ≤ l.high then
        let bits := l.bits * 64 + (n - 0x80)
        if l.more = 1 then (Char.ofNat bits :: ·) <$> decodeFrom (pos + 1) none bs
        else decodeFrom (pos + 1) (some (first, start, taken + 1, ⟨l.more - 1, bits, 0x80, 0xBF⟩)) bs
      else .error ⟨start, first, taken, .invalidContinuation⟩

/-- Joins line ends: a carriage return, alone or before a line feed, becomes a line feed. -/
def joinLineEnds : List Char → List Char
  | [] => []
  | '\r' :: '\n' :: cs => '\n' :: joinLineEnds cs
  | '\r' :: cs => '\n' :: joinLineEnds cs
  | c :: cs => c :: joinLineEnds cs

/-- The text of a file. -/
def decode (bytes : ByteArray) : Except Fault String :=
  (fun cs => String.ofList (joinLineEnds cs)) <$> decodeFrom 0 none bytes.toList

end Rigging.Text.Utf8
