import CircuitForm.Proofs.Json.Reading
import CircuitForm.Proofs.Json.RoundTrip

/-!
# Numbers read

Where a number has been read, there stood one of its spellings; where a value that has been read as
data is a number, there stood either a spelling of it or an object that holds one under the reserved
key and nothing else.
-/

namespace CircuitForm

open Bytes (ofChars)
open NumberText (fractionChars exponentChars)

namespace Json

variable {text rest : Bytes}

namespace Scan

variable {atEnd : Malformed}

theorem eq_ofChar_of_ofByte? {b : UInt8} {d : Digit} (h : Digit.ofByte? b = some d) : b = Ascii.ofChar d.char := by
  rw [Digit.ofByte?] at h
  split at h
  · rename_i hRange
    cases h
    have hBytes : ∀ d : Digit, Ascii.ofChar d.char = UInt8.ofNat (48 + d.val) := by decide
    rw [hBytes, ← UInt8.toNat_inj, UInt8.toNat_ofNat']
    dsimp only
    omega
  · cases h

theorem eq_of_digits (text : Bytes) : text = ofChars ((digits text).1.map Digit.char) ++ (digits text).2 := by
  induction text with
  | nil => rfl
  | cons b text ih =>
    cases hByte : Digit.ofByte? b with
    | none =>
      have hNo : isDigit b = false := by rw [isDigit, hByte, Option.isSome_none]
      simp [digits, hNo]
    | some d =>
      have hYes : isDigit b = true := by rw [isDigit, hByte, Option.isSome_some]
      have hFirst : (digits (b :: text)).1 = d :: (digits text).1 := by simp [digits, hYes, hByte]
      have hRest : (digits (b :: text)).2 = (digits text).2 := by simp [digits, hYes]
      rw [hFirst, hRest, List.map_cons, ofChars_cons_digit, List.cons_append, ← ih,
        eq_ofChar_of_ofByte? hByte]

theorem eq_of_whole {ds : WholeDigits} (h : whole atEnd text = .ok (ds, rest)) :
    text = ofChars ds.val.chars ++ rest := by
  cases text with
  | nil => cases h
  | cons b text =>
    rw [whole] at h
    split at h
    · cases h
    · rename_i d hByte
      split at h
      · split at h
        · cases h
        · cases h
          rw [Digits.chars, Digits.toList, List.map_singleton, ofChars_cons_digit, eq_ofChar_of_ofByte? hByte]
          rfl
      · cases h
        rw [Digits.chars, Digits.toList, List.map_cons, ofChars_cons_digit, List.cons_append, ← eq_of_digits,
          eq_ofChar_of_ofByte? hByte]

theorem eq_of_fraction {ds : Option Digits} (h : fraction atEnd text = .ok (ds, rest)) :
    text = ofChars (fractionChars ds) ++ rest := by
  cases text with
  | nil =>
    cases h
    rfl
  | cons b text =>
    rw [fraction] at h
    split at h
    · rename_i hPoint
      have hDigits := eq_of_digits text
      split at h
      · cases h
      · rename_i d ds unread hSplit
        cases h
        rw [hSplit] at hDigits
        rw [fractionChars, Bytes.ofChars_cons_of_lt (by decide), List.cons_append, hPoint, hDigits]
        rfl
    · cases h
      rfl

theorem exists_of_sign (text : Bytes) :
    ∃ s : ExponentSign, text = ofChars s.chars ++ (sign text).2 ∧ s.isMinus = (sign text).1 := by
  cases text with
  | nil => exact ⟨.absent, rfl, rfl⟩
  | cons b text =>
    by_cases hMinus : b = Ascii.minus
    · subst hMinus
      exact ⟨.minus, rfl, rfl⟩
    · by_cases hPlus : b = Ascii.plus
      · subst hPlus
        exact ⟨.plus, rfl, rfl⟩
      · refine ⟨.absent, ?_, ?_⟩ <;> rw [sign, if_neg hMinus, if_neg hPlus] <;> rfl

theorem exists_of_exponent {e : Option Exponent} (h : exponent atEnd text = .ok (e, rest)) :
    ∃ spelled : Option ExponentText,
      text = ofChars (exponentChars spelled) ++ rest ∧ spelled.map ExponentText.exponent = e := by
  cases text with
  | nil =>
    cases h
    exact ⟨none, rfl, rfl⟩
  | cons b text =>
    rw [exponent] at h
    split at h
    · rename_i hMark
      obtain ⟨s, hText, hMinus⟩ := exists_of_sign text
      split at h
      · cases h
      · rename_i negative c unread hSplit
        rw [hSplit] at hText hMinus
        split at h
        · cases h
        · rename_i d hByte
          cases h
          obtain ⟨capital, hCapital⟩ : ∃ capital, b = Ascii.ofChar (ExponentText.mark ⟨capital, s, d, []⟩) := by
            rw [Bool.or_eq_true, decide_eq_true_eq, decide_eq_true_eq] at hMark
            exact hMark.elim (fun hSmall => ⟨false, hSmall⟩) fun hLarge => ⟨true, hLarge⟩
          refine ⟨some ⟨capital, s, d, (digits unread).1⟩, ?_, ?_⟩
          · rw [exponentChars, ofChars_exponent, List.cons_append, List.append_assoc, List.cons_append,
              ← eq_of_digits, ← eq_ofChar_of_ofByte? hByte, ← hText, hCapital]
            rfl
          · rw [Option.map_some, ExponentText.exponent, hMinus]
    · cases h
      exact ⟨none, rfl, rfl⟩

theorem eq_of_minus (text : Bytes) :
    text = ofChars (if (minus text).1 then ['-'] else []) ++ (minus text).2 := by
  cases text with
  | nil => rfl
  | cons b text =>
    by_cases hMinus : b = Ascii.minus
    · subst hMinus
      rfl
    · rw [minus, if_neg hMinus]
      rfl

theorem exists_of_numeral {n : Numeral} (h : numeral atEnd text = .ok (n, rest)) :
    ∃ t : NumberText, text = ofChars t.chars ++ rest ∧ t.numeral = n := by
  obtain ⟨⟨ds, afterWhole⟩, hWhole, hMore⟩ := bind_eq_ok_iff.mp h
  obtain ⟨⟨fraction, afterFraction⟩, hFraction, hEnd⟩ := bind_eq_ok_iff.mp hMore
  obtain ⟨⟨e, afterExponent⟩, hExponent, hSame⟩ := bind_eq_ok_iff.mp hEnd
  cases hSame
  obtain ⟨spelled, hText, rfl⟩ := exists_of_exponent hExponent
  refine ⟨⟨(minus text).1, ds, fraction, spelled⟩, ?_, rfl⟩
  have hBehind : (minus text).2 = ofChars ds.val.chars ++
      (ofChars (fractionChars fraction) ++ (ofChars (exponentChars spelled) ++ rest)) := by
    rw [← hText, ← eq_of_fraction hFraction, ← eq_of_whole hWhole]
  rw [NumberText.chars]
  simp only [Bytes.ofChars_append, List.append_assoc]
  rw [← hBehind, ← eq_of_minus]

end Scan

theorem numeralText_eq_ok_iff {cs : List Char} {n : Numeral} :
    numeralText (ofChars cs) = .ok n ↔ ∃ t : NumberText, cs = t.chars ∧ t.numeral = n := by
  constructor
  · intro h
    rw [numeralText.eq_def] at h
    split at h
    · cases h
    · split at h
      · split at h
        · rename_i hNumeral
          cases h
          obtain ⟨t, hText, hSame⟩ := Scan.exists_of_numeral hNumeral
          rw [List.append_nil] at hText
          exact ⟨t, Bytes.ofChars_inj.mp hText, hSame⟩
        · cases h
        · split at h <;> cases h
      · cases h
  · rintro ⟨t, rfl, rfl⟩
    obtain ⟨b, more, hText, hFirst⟩ := exists_first_of_text t
    have hRead : Scan.numeral (.endIn .value) (ofChars t.chars ++ []) = .ok (t.numeral, []) :=
      Scan.numeral_text_append _ t nofun
    rw [List.append_nil, hText] at hRead
    rw [hText, numeralText, if_pos hFirst.isScanned, hRead]

theorem reservedNumber_eq_ok_iff {json : Json} : reservedNumber text = .ok (json, rest) ↔
    ∃ unread s n, Scan.skipBlank text = Ascii.quote :: unread ∧ Scan.string unread = .ok (s, rest) ∧
      numeralText (Bytes.ofString s) = .ok n ∧ json = .number n := by
  constructor
  · intro h
    rw [reservedNumber] at h
    split at h
    · cases h
    · rename_i b unread hText
      split at h
      · rename_i hQuote
        obtain ⟨⟨s, after⟩, hString, hMore⟩ := bind_eq_ok_iff.mp h
        dsimp only at hMore
        split at hMore
        · rename_i n hNumber
          cases hMore
          exact ⟨unread, s, n, hQuote ▸ hText, hString, hNumber, rfl⟩
        · cases hMore
      · cases h
  · rintro ⟨unread, s, n, hText, hString, hNumber, rfl⟩
    rw [reservedNumber, hText]
    dsimp only
    rw [if_pos rfl]
    refine bind_eq_ok_iff.mpr ⟨_, hString, ?_⟩
    dsimp only
    rw [hNumber]

theorem objectBody_eq_number_iff {nested : Bytes → Except Fault (Json × Bytes)} {n : Numeral} :
    objectBody .data nested text = .ok (.number n, rest) ↔
      ∃ behind inside, nextKey true text = .ok (some reservedKey, behind) ∧ colon behind = .ok inside ∧
        reservedNumber inside = .ok (.number n, rest) := by
  constructor
  · intro h
    obtain ⟨⟨first, behind⟩, hNext, hFirst⟩ := bind_eq_ok_iff.mp h
    cases first with
    | none => cases hFirst
    | some name =>
      dsimp only at hFirst
      split at hFirst
      · rename_i hReserved
        obtain ⟨inside, hColon, hNumber⟩ := bind_eq_ok_iff.mp hFirst
        obtain ⟨-, rfl⟩ := hReserved
        exact ⟨behind, inside, within_eq_ok_iff.mp hNext, hColon, within_eq_ok_iff.mp hNumber⟩
      · obtain ⟨_, -, hRest⟩ := bind_eq_ok_iff.mp hFirst
        obtain ⟨⟨members, after⟩, -, hSame⟩ := bind_eq_ok_iff.mp hRest
        cases hSame
  · rintro ⟨behind, inside, hNext, hColon, hNumber⟩
    refine bind_eq_ok_iff.mpr ⟨_, within_eq_ok_iff.mpr hNext, ?_⟩
    dsimp only
    rw [if_pos ⟨rfl, rfl⟩]
    exact bind_eq_ok_iff.mpr ⟨_, hColon, within_eq_ok_iff.mpr hNumber⟩

theorem value_eq_string_iff {keep : Keeping} {depth : Nat} {s : String} :
    value keep depth text = .ok (.string s, rest) ↔
      ∃ unread, Scan.skipBlank text = Ascii.quote :: unread ∧ Scan.string unread = .ok (s, rest) := by
  constructor
  · exact exists_of_value_string
  · rintro ⟨unread, hText, hString⟩
    rw [value_eq_scalar hText (by decide) (by decide), scalar, if_neg (by decide), if_neg (by decide),
      if_neg (by decide), if_neg (by decide), if_pos rfl, hString]
    rfl

theorem endObject_eq_ok_iff : endObject text = .ok rest ↔ Scan.skipBlank text = Ascii.closeBrace :: rest := by
  refine ⟨eq_cons_of_endObject, fun hText => ?_⟩
  rw [endObject, hText]
  exact if_pos rfl

/-- What is written comes to more members with each one, so a loop that has added none has stopped. -/
theorem nextKey_of_members_self {nested : Bytes → Except Fault (Json × Bytes)} {fuel : Nat} {first : Bool}
    {built : Entries Json} (h : members (member .verbatim nested) fuel first built text = .ok (built, rest)) :
    nextKey first text = .ok (none, rest) := by
  cases fuel with
  | zero => cases h
  | succ fuel =>
    obtain ⟨⟨found, behind⟩, hNext, hMore⟩ := bind_eq_ok_iff.mp h
    cases found with
    | none =>
      cases hMore
      exact within_eq_ok_iff.mp hNext
    | some name =>
      obtain ⟨⟨longer, after⟩, hMember, hRest⟩ := bind_eq_ok_iff.mp hMore
      obtain ⟨inside, json, -, -, rfl⟩ := member_eq_ok_iff.mp hMember
      have hLength := (prefix_of_members hRest).length_le
      rw [Keeping.add, List.length_append] at hLength
      exact absurd hLength (Nat.not_succ_le_self built.length)

/-- Kept as it is written, an object of one member is a key, a value and the closing brace. -/
theorem members_eq_singleton_iff {nested : Bytes → Except Fault (Json × Bytes)} {name : String} {json : Json} :
    (∃ last, members (member .verbatim nested) (text.length + 1) true [] text = .ok ([(name, json)], last) ∧
      endObject last = .ok rest) ↔
    ∃ behind inside after, nextKey true text = .ok (some name, behind) ∧ colon behind = .ok inside ∧
      nested inside = .ok (json, after) ∧ endObject after = .ok rest := by
  constructor
  · rintro ⟨last, hMembers, hEnd⟩
    obtain ⟨⟨found, behind⟩, hNext, hMore⟩ := bind_eq_ok_iff.mp hMembers
    cases found with
    | none => cases hMore
    | some first =>
      obtain ⟨⟨entries, after⟩, hMember, hRest⟩ := bind_eq_ok_iff.mp hMore
      obtain ⟨inside, value, hColon, hValue, rfl⟩ := member_eq_ok_iff.mp hMember
      obtain ⟨⟨⟩⟩ := (prefix_of_members hRest).eq_of_length rfl
      refine ⟨behind, inside, after, within_eq_ok_iff.mp hNext, hColon, hValue, ?_⟩
      obtain ⟨-, unread, rfl, hText⟩ | ⟨_, _, hNone, -⟩ := nextKey_cases (nextKey_of_members_self hRest)
      · cases hEnd
        exact endObject_eq_ok_iff.mpr hText
      · cases hNone
  · rintro ⟨behind, inside, after, hNext, hColon, hValue, hEnd⟩
    have hLength := length_lt_of_nextKey hNext
    obtain ⟨fuel, hFuel⟩ := Nat.exists_eq_succ_of_ne_zero (Nat.ne_zero_of_lt hLength)
    have hClose : nextKey false after = .ok (none, Ascii.closeBrace :: rest) := by
      rw [nextKey, endObject_eq_ok_iff.mp hEnd]
      exact if_pos rfl
    rw [hFuel]
    exact ⟨Ascii.closeBrace :: rest, members_of_more hNext
      (member_eq_ok_iff.mpr ⟨inside, json, hColon, hValue, rfl⟩) (members_of_close hClose), endObject_append rest⟩

/-- An object whose only member is the text of the number, under the reserved key. -/
def boxed (t : NumberText) : Json :=
  .object [(reservedKey, .string t.text)]

theorem value_of_boxed {depth : Nat} {t : NumberText} (h : value .verbatim depth text = .ok (boxed t, rest)) :
    value .data depth text = .ok (.number t.numeral, rest) := by
  obtain ⟨d, inside, last, rfl, hText, hMembers, -, hLast⟩ := value_eq_object_iff.mp h
  obtain ⟨behind, between, after, hNext, hColon, hValue, hEnd⟩ :=
    members_eq_singleton_iff.mp ⟨last, hMembers, hLast⟩
  obtain ⟨unread, hQuote, hString⟩ := value_eq_string_iff.mp hValue
  have hNumeral : numeralText (Bytes.ofString t.text) = .ok t.numeral := by
    rw [NumberText.text, Bytes.ofString_ofList]
    exact numeralText_eq_ok_iff.mpr ⟨t, rfl, rfl⟩
  have hNumber := reservedNumber_eq_ok_iff.mpr ⟨unread, _, _, hQuote, hString, hNumeral, rfl⟩
  have hBody : objectBody .data (value .data d) inside = .ok (.number t.numeral, after) :=
    objectBody_eq_number_iff.mpr ⟨behind, between, hNext, hColon, hNumber⟩
  rw [value, valueWith, hText]
  dsimp only
  rw [if_neg (by decide), if_pos rfl]
  exact closing_eq_ok_iff.mpr ⟨_, hBody, hEnd⟩

theorem exists_boxed_of_objectBody {d : Nat} {inside after : Bytes} {n : Numeral}
    (hText : Scan.skipBlank text = Ascii.openBrace :: inside)
    (h : objectBody .data (value .data d) inside = .ok (.number n, after)) (hEnd : endObject after = .ok rest) :
    ∃ t : NumberText, value .verbatim (d + 1) text = .ok (boxed t, rest) ∧ t.numeral = n := by
  obtain ⟨behind, between, hNext, hColon, hNumber⟩ := objectBody_eq_number_iff.mp h
  obtain ⟨unread, s, _, hQuote, hString, hNumeral, ⟨⟩⟩ := reservedNumber_eq_ok_iff.mp hNumber
  rw [Bytes.ofString_eq] at hNumeral
  obtain ⟨t, hChars, rfl⟩ := numeralText_eq_ok_iff.mp hNumeral
  have hValue : value .verbatim d between = .ok (.string t.text, after) := by
    rw [NumberText.text, ← hChars, String.ofList_toList]
    exact value_eq_string_iff.mpr ⟨unread, hQuote, hString⟩
  obtain ⟨last, hMembers, hLast⟩ :=
    members_eq_singleton_iff.mpr ⟨behind, between, after, hNext, hColon, hValue, hEnd⟩
  exact ⟨t, value_eq_object_iff.mpr ⟨d, inside, last, rfl, hText, hMembers, nofun, hLast⟩, rfl⟩

theorem value_eq_number_cases {depth : Nat} {n : Numeral} (h : value .data depth text = .ok (.number n, rest)) :
    ∃ t : NumberText, (Scan.skipBlank text = ofChars t.chars ++ rest ∨
      value .verbatim depth text = .ok (boxed t, rest)) ∧ t.numeral = n := by
  obtain ⟨b, unread, hText, -, -, hScalar⟩ | ⟨d, inside, after, items, -, -, hSame, -⟩ |
    ⟨d, inside, after, rfl, hText, hBody, hEnd⟩ := value_cases h
  · obtain ⟨-, hSame, -⟩ | ⟨-, hSame, -⟩ | ⟨-, hSame, -⟩ | ⟨-, -, -, -, _, ⟨⟩, hNumeral⟩ | ⟨-, s, hSame, -⟩ :=
      scalar_cases hScalar
    case inr.inr.inr.inl =>
      obtain ⟨t, hChars, hNumber⟩ := Scan.exists_of_numeral hNumeral
      exact ⟨t, .inl (hText.trans hChars), hNumber⟩
    all_goals cases hSame
  · cases hSame
  · obtain ⟨t, hBoxed, hNumber⟩ := exists_boxed_of_objectBody hText hBody hEnd
    exact ⟨t, .inr hBoxed, hNumber⟩

/-- To its end, but for blanks, the text is the value, with every member as it is written. -/
def Writes (text : Bytes) (json : Json) : Prop :=
  ∃ rest, value .verbatim depthLimit text = .ok (json, rest) ∧ atEnd rest = .ok ()

/-- A text of a number is a spelling of it between blanks, or an object that holds one. -/
theorem ofText_eq_number_iff {n : Numeral} : ofText text = .ok (.number n) ↔ ∃ t : NumberText,
    ((∃ rest, Scan.skipBlank text = ofChars t.chars ++ rest ∧ Blank rest) ∨ Writes text (boxed t)) ∧
      t.numeral = n := by
  rw [ofText_eq_ok_iff]
  constructor
  · rintro ⟨rest, hValue, hEnd⟩
    obtain ⟨t, hText | hBoxed, hNumber⟩ := value_eq_number_cases hValue
    · exact ⟨t, .inl ⟨rest, hText, atEnd_eq_ok_iff.mp hEnd⟩, hNumber⟩
    · exact ⟨t, .inr ⟨rest, hBoxed, hEnd⟩, hNumber⟩
  · rintro ⟨t, ⟨rest, hText, hRest⟩ | ⟨rest, hBoxed, hEnd⟩, rfl⟩
    · have hRead : value .data depthLimit (ofChars t.chars ++ rest) = .ok (.number t.numeral, rest) :=
        value_of_scalar (plainly_text t) (scalar_text t hRest.delimited)
      rw [← hText, value_skipBlank] at hRead
      exact ⟨rest, hRead, atEnd_eq_ok_iff.mpr hRest⟩
    · exact ⟨rest, value_of_boxed hBoxed, hEnd⟩

end Json

end CircuitForm
