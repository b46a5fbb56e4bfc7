import CircuitForm.Text.Bytes

/-!
# The bytes of characters

A text is the bytes of its characters one after the other. An ASCII character is one byte, and
every byte of any other character is above the ASCII range, so it is never taken for one.
-/

namespace CircuitForm.Bytes

def ofChars (cs : List Char) : Bytes :=
  cs.flatMap String.utf8EncodeChar

@[simp] theorem ofChars_nil : ofChars [] = [] := rfl

theorem ofChars_cons (c : Char) (cs : List Char) :
    ofChars (c :: cs) = String.utf8EncodeChar c ++ ofChars cs := rfl

@[simp] theorem ofChars_append (front back : List Char) :
    ofChars (front ++ back) = ofChars front ++ ofChars back :=
  List.flatMap_append

theorem ofString_ofList (cs : List Char) : ofString (String.ofList cs) = ofChars cs := by
  rw [ofString, String.toByteArray_ofList, List.utf8Encode]
  simp [ofChars]

theorem ofString_eq (s : String) : ofString s = ofChars s.toList := by
  rw [← ofString_ofList, String.ofList_toList]

theorem ofChars_inj {front back : List Char} : ofChars front = ofChars back ↔ front = back := by
  refine ⟨fun h => ?_, congrArg ofChars⟩
  have hText := toString?_ofString (String.ofList front)
  rw [ofString_ofList, h, ← ofString_ofList, toString?_ofString] at hText
  exact (String.ofList_injective (Option.some.inj hText)).symm

theorem exists_ofChars_concat (cs : List Char) (c : Char) :
    ∃ bytes last, ofChars (cs ++ [c]) = bytes ++ [last] ∧ last ∈ String.utf8EncodeChar c := by
  rcases List.eq_nil_or_concat (String.utf8EncodeChar c) with hNone | ⟨front, last, hBytes⟩
  · exact absurd hNone String.utf8EncodeChar_ne_nil
  · rw [List.concat_eq_append] at hBytes
    refine ⟨ofChars cs ++ front, last, ?_, by simp [hBytes]⟩
    rw [ofChars_append, ofChars_cons, hBytes, ofChars_nil, List.append_nil, List.append_assoc]

theorem utf8EncodeChar_of_lt {c : Char} (h : c.toNat < 128) :
    String.utf8EncodeChar c = [Ascii.ofChar c] := by
  have hVal : c.val.toNat ≤ 127 := Nat.le_of_lt_succ h
  rw [String.utf8EncodeChar]
  exact if_pos hVal

theorem ofChars_cons_of_lt {c : Char} (h : c.toNat < 128) (cs : List Char) :
    ofChars (c :: cs) = Ascii.ofChar c :: ofChars cs := by
  rw [ofChars_cons, utf8EncodeChar_of_lt h, List.singleton_append]

theorem le_of_mem_utf8EncodeChar {c : Char} (h : 128 ≤ c.toNat) {b : UInt8}
    (hByte : b ∈ String.utf8EncodeChar c) : 128 ≤ b.toNat := by
  have hVal : ¬ c.val.toNat ≤ 127 := Nat.not_le_of_lt h
  simp only [String.utf8EncodeChar, if_neg hVal] at hByte
  split at hByte
  · simp only [List.mem_cons, List.not_mem_nil, or_false] at hByte
    rcases hByte with rfl | rfl <;> rw [UInt8.toNat_ofNat'] <;> omega
  · split at hByte
    · simp only [List.mem_cons, List.not_mem_nil, or_false] at hByte
      rcases hByte with rfl | rfl | rfl <;> rw [UInt8.toNat_ofNat'] <;> omega
    · simp only [List.mem_cons, List.not_mem_nil, or_false] at hByte
      rcases hByte with rfl | rfl | rfl | rfl <;> rw [UInt8.toNat_ofNat'] <;> omega

theorem length_le_length_ofChars (cs : List Char) : cs.length ≤ (ofChars cs).length := by
  induction cs with
  | nil => exact Nat.le_refl 0
  | cons c cs ih =>
    have hByte : 0 < (String.utf8EncodeChar c).length := List.length_pos_iff.mpr String.utf8EncodeChar_ne_nil
    rw [ofChars_cons, List.length_append, List.length_cons]
    omega

end CircuitForm.Bytes
