/-!
# Texts as bytes

Documents are read byte by byte, because positions are counted in bytes and a file need not
be valid UTF-8. A string enters through its UTF-8 form and comes back only when the bytes
are valid.
-/

namespace CircuitForm

abbrev Bytes := List UInt8

namespace Bytes

def ofString (s : String) : Bytes :=
  s.toByteArray.data.toList

def toString? (bytes : Bytes) : Option String :=
  String.fromUTF8? ⟨bytes.toArray⟩

/-- The rest from the first byte on that is in no valid character; `fuel` bounds the number of
characters. -/
def fromInvalid : (fuel : Nat) → Bytes → Bytes
  | _, [] => []
  | 0, bytes => bytes
  | fuel + 1, b :: rest =>
    match [1, 2, 3, 4].find? fun n => (toString? ((b :: rest).take n)).isSome with
    | some n => fromInvalid fuel ((b :: rest).drop n)
    | none => b :: rest

theorem toString?_ofString (s : String) : toString? (ofString s) = some s := by
  have valid : (⟨s.toByteArray.data⟩ : ByteArray).IsValidUTF8 := s.isValidUTF8
  simp only [toString?, ofString, String.fromUTF8?, Array.toArray_toList]
  exact dif_pos valid

theorem ofString_append (s t : String) : ofString (s ++ t) = ofString s ++ ofString t := by
  simp [ofString]

end Bytes

/-! The ASCII bytes that the grammars of this library name. -/

namespace Ascii

abbrev tab : UInt8 := 0x09
abbrev newline : UInt8 := 0x0A
abbrev carriageReturn : UInt8 := 0x0D
abbrev space : UInt8 := 0x20
abbrev quote : UInt8 := 0x22
abbrev plus : UInt8 := 0x2B
abbrev comma : UInt8 := 0x2C
abbrev minus : UInt8 := 0x2D
abbrev point : UInt8 := 0x2E
abbrev slash : UInt8 := 0x2F
abbrev zero : UInt8 := 0x30
abbrev nine : UInt8 := 0x39
abbrev colon : UInt8 := 0x3A
abbrev openBracket : UInt8 := 0x5B
abbrev backslash : UInt8 := 0x5C
abbrev closeBracket : UInt8 := 0x5D
abbrev openBrace : UInt8 := 0x7B
abbrev closeBrace : UInt8 := 0x7D

abbrev ofChar (c : Char) : UInt8 := c.toNat.toUInt8

end Ascii

end CircuitForm
