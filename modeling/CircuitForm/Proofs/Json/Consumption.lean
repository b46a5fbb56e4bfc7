import CircuitForm.Proofs.Json.Depth

/-!
# Readers take bytes

Whatever is read off the front of a text leaves less of it. So no loop over a list or an object
has more rounds than the text has bytes, and fuel beyond that changes nothing.
-/

namespace CircuitForm.Json

variable {α σ : Type} {text rest : Bytes}

namespace Scan

theorem length_skipBlank_le (text : Bytes) : (skipBlank text).length ≤ text.length :=
  (List.dropWhile_suffix _).length_le

theorem length_lt_of_skipBlank {b : UInt8} (h : skipBlank text = b :: rest) : rest.length < text.length := by
  have hLength := length_skipBlank_le text
  rw [h, List.length_cons] at hLength
  omega

theorem length_le_of_word {letters : Bytes} (h : word letters text = .ok rest) :
    rest.length ≤ text.length := by
  induction letters generalizing text with
  | nil =>
    cases h
    exact Nat.le_refl _
  | cons letter letters ih =>
    cases text with
    | nil => cases h
    | cons b text =>
      rw [word] at h
      split at h
      · exact Nat.le_succ_of_le (ih h)
      · cases h

theorem length_digits_le (text : Bytes) : (digits text).2.length ≤ text.length :=
  (List.dropWhile_suffix _).length_le

theorem length_lt_of_whole {atEnd : Malformed} {ds : WholeDigits} (h : whole atEnd text = .ok (ds, rest)) :
    rest.length < text.length := by
  cases text with
  | nil => cases h
  | cons b text =>
    rw [whole] at h
    split at h
    · cases h
    · split at h
      · split at h <;> cases h
        exact Nat.lt_succ_self _
      · cases h
        exact Nat.lt_succ_of_le (length_digits_le text)

theorem length_le_of_fraction {atEnd : Malformed} {ds : Option Digits}
    (h : fraction atEnd text = .ok (ds, rest)) : rest.length ≤ text.length := by
  cases text with
  | nil =>
    cases h
    exact Nat.le_refl _
  | cons b text =>
    have hDigits := length_digits_le text
    rw [fraction] at h
    split at h
    · split at h
      · cases h
      · rename_i hSplit
        cases h
        rw [hSplit] at hDigits
        exact Nat.le_succ_of_le hDigits
    · cases h
      exact Nat.le_refl _

theorem length_sign_le (text : Bytes) : (sign text).2.length ≤ text.length := by
  cases text with
  | nil => exact Nat.le_refl _
  | cons b text =>
    rw [sign]
    split
    · exact Nat.le_succ _
    · split
      · exact Nat.le_succ _
      · exact Nat.le_refl _

theorem length_le_of_exponent {atEnd : Malformed} {e : Option Exponent}
    (h : exponent atEnd text = .ok (e, rest)) : rest.length ≤ text.length := by
  cases text with
  | nil =>
    cases h
    exact Nat.le_refl _
  | cons b text =>
    have hSign := length_sign_le text
    rw [exponent] at h
    split at h
    · split at h
      · cases h
      · rename_i negative c unread hSplit
        have hDigits := length_digits_le unread
        rw [hSplit, List.length_cons] at hSign
        split at h
        · cases h
        · cases h
          rw [List.length_cons]
          omega
    · cases h
      exact Nat.le_refl _

theorem length_minus_le (text : Bytes) : (minus text).2.length ≤ text.length := by
  cases text with
  | nil => exact Nat.le_refl _
  | cons b text =>
    rw [minus]
    split
    · exact Nat.le_succ _
    · exact Nat.le_refl _

theorem length_lt_of_numeral {atEnd : Malformed} {n : Numeral} (h : numeral atEnd text = .ok (n, rest)) :
    rest.length < text.length := by
  obtain ⟨⟨ds, afterWhole⟩, hWhole, hMore⟩ := bind_eq_ok_iff.mp h
  obtain ⟨⟨ds, afterFraction⟩, hFraction, hEnd⟩ := bind_eq_ok_iff.mp hMore
  obtain ⟨⟨e, afterExponent⟩, hExponent, hNumeral⟩ := bind_eq_ok_iff.mp hEnd
  cases hNumeral
  calc rest.length
    _ ≤ afterFraction.length := length_le_of_exponent hExponent
    _ ≤ afterWhole.length := length_le_of_fraction hFraction
    _ < (minus text).2.length := length_lt_of_whole hWhole
    _ ≤ text.length := length_minus_le text

theorem length_of_fourHex {code : Nat} (h : fourHex text = .ok (code, rest)) :
    text.length = rest.length + 4 := by
  rw [fourHex.eq_def] at h
  split at h
  · split at h <;> cases h
    rfl
  · cases h

theorem eq_cons_of_pairByte {expected : UInt8} (h : pairByte expected text = .ok rest) :
    text = expected :: rest := by
  cases text with
  | nil => cases h
  | cons b text =>
    rw [pairByte] at h
    split at h
    · rename_i hByte
      cases h
      rw [hByte]
    · cases h

/-- The code of an escape is either one group of digits, or two with the marks of an escape between
them. -/
theorem codePoint_cases {c : Char} (h : codePoint text = .ok (c, rest)) :
    (∃ code, fourHex text = .ok (code, rest)) ∨
    ∃ high low between, fourHex text = .ok (high, Ascii.backslash :: Ascii.ofChar 'u' :: between) ∧
      fourHex between = .ok (low, rest) := by
  obtain ⟨⟨code, after⟩, hCode, hMore⟩ := bind_eq_ok_iff.mp h
  dsimp only at hMore
  split at hMore
  · cases hMore
  · split at hMore
    · obtain ⟨behindMark, hMark, hPair⟩ := bind_eq_ok_iff.mp hMore
      obtain ⟨between, hLetter, hLow⟩ := bind_eq_ok_iff.mp hPair
      obtain ⟨⟨low, last⟩, hSecond, hChar⟩ := bind_eq_ok_iff.mp hLow
      dsimp only at hChar
      split at hChar
      · obtain ⟨-, rfl⟩ := Prod.mk.inj (Except.ok.inj hChar)
        cases eq_cons_of_pairByte hMark
        cases eq_cons_of_pairByte hLetter
        exact .inr ⟨code, low, between, hCode, hSecond⟩
      · cases hChar
    · cases hMore
      exact .inl ⟨code, hCode⟩

theorem length_lt_of_codePoint {c : Char} (h : codePoint text = .ok (c, rest)) :
    rest.length < text.length := by
  obtain ⟨code, hCode⟩ | ⟨high, low, between, hHigh, hLow⟩ := codePoint_cases h
  · have hLength := length_of_fourHex hCode
    omega
  · have hFirst := length_of_fourHex hHigh
    have hSecond := length_of_fourHex hLow
    simp only [List.length_cons] at hFirst
    omega

theorem length_lt_of_escape {piece : Bytes} (h : escape text = .ok (piece, rest)) :
    rest.length < text.length := by
  cases text with
  | nil => cases h
  | cons b text =>
    rw [escape] at h
    split at h
    · cases h
      exact Nat.lt_succ_self _
    · split at h
      · obtain ⟨⟨c, after⟩, hCode, hSame⟩ := map_eq_ok_iff.mp h
        cases hSame
        exact Nat.lt_succ_of_lt (length_lt_of_codePoint hCode)
      · cases h

theorem length_lt_of_content {fuel : Nat} {bytes : Bytes} (h : content fuel text = .ok (bytes, rest)) :
    rest.length < text.length := by
  induction fuel generalizing text bytes with
  | zero => cases h
  | succ fuel ih =>
    have hPlain := (List.dropWhile_suffix isPlain (l := text)).length_le
    rw [content] at h
    split at h
    · cases h
    · rename_i b unread hDrop
      rw [hDrop, List.length_cons] at hPlain
      split at h
      · cases h
        omega
      · split at h
        · obtain ⟨⟨piece, after⟩, hEscape, hMore⟩ := bind_eq_ok_iff.mp h
          obtain ⟨⟨more, last⟩, hContent, hSame⟩ := bind_eq_ok_iff.mp hMore
          cases hSame
          have hFirst := length_lt_of_escape hEscape
          have hRest := ih hContent
          omega
        · cases h

theorem length_lt_of_string {s : String} (h : string text = .ok (s, rest)) : rest.length < text.length := by
  obtain ⟨⟨bytes, after⟩, hContent, hString⟩ := bind_eq_ok_iff.mp h
  dsimp only at hString
  split at hString
  · cases hString
    exact length_lt_of_content hContent
  · cases hString

end Scan

theorem length_lt_of_scalar {json : Json} (h : scalar text = .ok (json, rest)) :
    rest.length < text.length := by
  cases text with
  | nil => cases h
  | cons b text =>
    obtain ⟨-, -, hWord⟩ | ⟨-, -, hWord⟩ | ⟨-, -, hWord⟩ | ⟨-, -, -, -, n, -, hNumeral⟩ |
      ⟨-, s, -, hString⟩ := scalar_cases h
    · exact Nat.lt_succ_of_le (Scan.length_le_of_word hWord)
    · exact Nat.lt_succ_of_le (Scan.length_le_of_word hWord)
    · exact Nat.lt_succ_of_le (Scan.length_le_of_word hWord)
    · exact Scan.length_lt_of_numeral hNumeral
    · exact Nat.lt_succ_of_lt (Scan.length_lt_of_string hString)

theorem colon_eq_ok_iff : colon text = .ok rest ↔ Scan.skipBlank text = Ascii.colon :: rest := by
  rw [colon]
  split
  · rename_i hBlank
    exact iff_of_false nofun (by simp [hBlank])
  · rename_i b unread hBlank
    rw [hBlank, List.cons.injEq]
    split
    · rename_i hByte
      simp [hByte]
    · rename_i hByte
      simp [hByte]

theorem eq_cons_of_endList (h : endList text = .ok rest) :
    Scan.skipBlank text = Ascii.closeBracket :: rest := by
  rw [endList] at h
  split at h
  · cases h
  · rename_i b unread hBlank
    split at h
    · rename_i hByte
      cases h
      rw [hBlank, hByte]
    · split at h
      · split at h <;> cases h
      · cases h

theorem eq_cons_of_endObject (h : endObject text = .ok rest) :
    Scan.skipBlank text = Ascii.closeBrace :: rest := by
  rw [endObject] at h
  split at h
  · cases h
  · rename_i b unread hBlank
    split at h
    · rename_i hByte
      cases h
      rw [hBlank, hByte]
    · split at h <;> cases h

/-- What stands before an element: nothing for the first, a comma for any other. -/
theorem nextElement_cases {first more : Bool} (h : nextElement first text = .ok (more, rest)) :
    (more = false ∧ ∃ behind, rest = Ascii.closeBracket :: behind ∧ Scan.skipBlank text = rest) ∨
    (more = true ∧ ∃ b behind, rest = b :: behind ∧ b ≠ Ascii.closeBracket ∧
      ((first = true ∧ Scan.skipBlank text = rest) ∨
        (first = false ∧ ∃ between, Scan.skipBlank text = Ascii.comma :: between ∧
          Scan.skipBlank between = rest))) := by
  rw [nextElement] at h
  split at h
  · cases h
  · rename_i b unread hBlank
    split at h
    · rename_i hByte
      cases h
      exact .inl ⟨rfl, unread, by rw [hByte], hBlank⟩
    · split at h
      · cases h
        exact .inr ⟨rfl, b, unread, rfl, ‹_›, .inl ⟨‹_›, hBlank⟩⟩
      · rename_i hFirst
        split at h
        · rename_i hComma
          split at h
          · cases h
          · rename_i c behind hMore
            split at h
            · cases h
            · cases h
              refine .inr ⟨rfl, c, behind, rfl, ‹_›, .inr ⟨Bool.eq_false_iff.mpr hFirst, unread, ?_, hMore⟩⟩
              rw [hBlank, hComma]
        · cases h

theorem key_cases {found : Option String} (h : key text = .ok (found, rest)) :
    ∃ name inside, found = some name ∧ text = Ascii.quote :: inside ∧
      Scan.string inside = .ok (name, rest) := by
  cases text with
  | nil => cases h
  | cons b text =>
    rw [key] at h
    split at h
    · rename_i hByte
      obtain ⟨⟨s, after⟩, hString, hSame⟩ := map_eq_ok_iff.mp h
      cases hSame
      exact ⟨s, text, rfl, by rw [hByte], hString⟩
    · cases h

/-- What stands before a key: nothing for the first, a comma for any other. -/
theorem nextKey_cases {first : Bool} {found : Option String} (h : nextKey first text = .ok (found, rest)) :
    (found = none ∧ ∃ behind, rest = Ascii.closeBrace :: behind ∧ Scan.skipBlank text = rest) ∨
    ∃ name inside, found = some name ∧ Scan.string inside = .ok (name, rest) ∧
      ((first = true ∧ Scan.skipBlank text = Ascii.quote :: inside) ∨
        (first = false ∧ ∃ between, Scan.skipBlank text = Ascii.comma :: between ∧
          Scan.skipBlank between = Ascii.quote :: inside)) := by
  rw [nextKey] at h
  split at h
  · cases h
  · rename_i b unread hBlank
    split at h
    · rename_i hByte
      cases h
      exact .inl ⟨rfl, unread, by rw [hByte], hBlank⟩
    · split at h
      · obtain ⟨name, inside, hFound, hText, hString⟩ := key_cases h
        exact .inr ⟨name, inside, hFound, hString, .inl ⟨‹_›, hBlank.trans hText⟩⟩
      · rename_i hFirst
        split at h
        · rename_i hComma
          split at h
          · cases h
          · rename_i c behind hMore
            split at h
            · cases h
            · obtain ⟨name, inside, hFound, hText, hString⟩ := key_cases h
              refine .inr ⟨name, inside, hFound, hString,
                .inr ⟨Bool.eq_false_iff.mpr hFirst, unread, ?_, hMore.trans hText⟩⟩
              rw [hBlank, hComma]
        · cases h

theorem length_lt_of_colon (h : colon text = .ok rest) : rest.length < text.length :=
  Scan.length_lt_of_skipBlank (colon_eq_ok_iff.mp h)

theorem length_lt_of_endList (h : endList text = .ok rest) : rest.length < text.length :=
  Scan.length_lt_of_skipBlank (eq_cons_of_endList h)

theorem length_lt_of_endObject (h : endObject text = .ok rest) : rest.length < text.length :=
  Scan.length_lt_of_skipBlank (eq_cons_of_endObject h)

theorem length_le_of_nextElement {first more : Bool} (h : nextElement first text = .ok (more, rest)) :
    rest.length ≤ text.length := by
  obtain ⟨-, behind, -, rfl⟩ | ⟨-, b, behind, -, -, ⟨-, rfl⟩ | ⟨-, between, hComma, rfl⟩⟩ :=
    nextElement_cases h
  · exact Scan.length_skipBlank_le text
  · exact Scan.length_skipBlank_le text
  · have hBetween := Scan.length_lt_of_skipBlank hComma
    have hRest := Scan.length_skipBlank_le between
    omega

theorem length_lt_of_nextKey {first : Bool} {name : String}
    (h : nextKey first text = .ok (some name, rest)) : rest.length < text.length := by
  obtain ⟨hNone, -⟩ | ⟨_, inside, -, hString, ⟨-, hQuote⟩ | ⟨-, between, hComma, hQuote⟩⟩ := nextKey_cases h
  · cases hNone
  · exact Nat.lt_trans (Scan.length_lt_of_string hString) (Scan.length_lt_of_skipBlank hQuote)
  · have hBetween := Scan.length_lt_of_skipBlank hComma
    have hInside := Scan.length_lt_of_skipBlank hQuote
    have hRest := Scan.length_lt_of_string hString
    omega

theorem length_le_of_nextKey {first : Bool} (h : nextKey first text = .ok (none, rest)) :
    rest.length ≤ text.length := by
  obtain ⟨-, behind, -, rfl⟩ | ⟨name, inside, hNone, -⟩ := nextKey_cases h
  · exact Scan.length_skipBlank_le text
  · cases hNone

theorem length_le_of_elements {item : Bytes → Except Fault (α × Bytes)}
    (hItem : ∀ text value rest, item text = .ok (value, rest) → rest.length ≤ text.length)
    {fuel index : Nat} {values : List α} (h : elements item fuel index text = .ok (values, rest)) :
    rest.length ≤ text.length := by
  induction fuel generalizing index text values with
  | zero => cases h
  | succ fuel ih =>
    obtain ⟨⟨more, found⟩, hNext, hMore⟩ := bind_eq_ok_iff.mp h
    have hFound := length_le_of_nextElement hNext
    cases more with
    | false =>
      cases hMore
      exact hFound
    | true =>
      obtain ⟨⟨value, after⟩, hValue, hRest⟩ := bind_eq_ok_iff.mp hMore
      obtain ⟨⟨others, last⟩, hOthers, hValues⟩ := bind_eq_ok_iff.mp hRest
      cases hValues
      exact Nat.le_trans (ih hOthers) (Nat.le_trans (hItem _ _ _ (within_eq_ok_iff.mp hValue)) hFound)

section Members

variable {step : σ → String → Bytes → Except Fault (σ × Bytes)}

theorem length_le_of_members
    (hStep : ∀ state name text next rest, step state name text = .ok (next, rest) → rest.length ≤ text.length)
    {fuel : Nat} {first : Bool} {state last : σ} (h : members step fuel first state text = .ok (last, rest)) :
    rest.length ≤ text.length := by
  induction fuel generalizing first state text with
  | zero => cases h
  | succ fuel ih =>
    obtain ⟨⟨found, behind⟩, hNext, hMore⟩ := bind_eq_ok_iff.mp h
    have hKey := within_eq_ok_iff.mp hNext
    cases found with
    | none =>
      cases hMore
      exact length_le_of_nextKey hKey
    | some name =>
      obtain ⟨⟨next, after⟩, hMember, hRest⟩ := bind_eq_ok_iff.mp hMore
      have hFirst := length_lt_of_nextKey hKey
      have hSecond := hStep _ _ _ _ _ hMember
      have hThird := ih hRest
      omega

/-- A round takes at least the quotes of a key, so as much fuel as there are bytes is enough. -/
theorem members_of_length_lt
    (hStep : ∀ state name text next rest, step state name text = .ok (next, rest) → rest.length ≤ text.length)
    {fuel enough : Nat} {first : Bool} {state last : σ}
    (h : members step fuel first state text = .ok (last, rest)) (hEnough : text.length < enough) :
    members step enough first state text = .ok (last, rest) := by
  induction fuel generalizing first state text enough with
  | zero => cases h
  | succ fuel ih =>
    cases enough with
    | zero => cases hEnough
    | succ enough =>
      obtain ⟨⟨found, behind⟩, hNext, hMore⟩ := bind_eq_ok_iff.mp h
      refine bind_eq_ok_iff.mpr ⟨_, hNext, ?_⟩
      cases found with
      | none => exact hMore
      | some name =>
        obtain ⟨⟨next, after⟩, hMember, hRest⟩ := bind_eq_ok_iff.mp hMore
        have hFirst := length_lt_of_nextKey (within_eq_ok_iff.mp hNext)
        have hSecond := hStep _ _ _ _ _ hMember
        exact bind_eq_ok_iff.mpr ⟨_, hMember, ih hRest (by omega)⟩

end Members

section Nested

variable {keep : Keeping} {nested : Bytes → Except Fault (Json × Bytes)}
  (hNested : ∀ text json rest, nested text = .ok (json, rest) → rest.length < text.length)

include hNested

theorem length_le_of_member {entries next : Entries Json} {name : String}
    (h : member keep nested entries name text = .ok (next, rest)) : rest.length ≤ text.length := by
  obtain ⟨inside, hColon, hMore⟩ := bind_eq_ok_iff.mp h
  obtain ⟨⟨json, after⟩, hValue, hSame⟩ := bind_eq_ok_iff.mp hMore
  cases hSame
  have hFirst := length_lt_of_colon hColon
  have hSecond := hNested _ _ _ (within_eq_ok_iff.mp hValue)
  omega

omit hNested in
theorem length_lt_of_reservedNumber {json : Json} (h : reservedNumber text = .ok (json, rest)) :
    rest.length < text.length := by
  rw [reservedNumber] at h
  split at h
  · cases h
  · rename_i b unread hBlank
    have hUnread := Scan.length_lt_of_skipBlank hBlank
    split at h
    · obtain ⟨⟨s, after⟩, hString, hNumeral⟩ := bind_eq_ok_iff.mp h
      have hAfter := Scan.length_lt_of_string hString
      dsimp only at hNumeral
      split at hNumeral
      · cases hNumeral
        exact Nat.lt_trans hAfter hUnread
      · cases hNumeral
    · cases h

theorem length_le_of_objectBody {json : Json} (h : objectBody keep nested text = .ok (json, rest)) :
    rest.length ≤ text.length := by
  obtain ⟨⟨first, behind⟩, hNext, hFirst⟩ := bind_eq_ok_iff.mp h
  have hKey := within_eq_ok_iff.mp hNext
  cases first with
  | none =>
    cases hFirst
    exact length_le_of_nextKey hKey
  | some name =>
    have hName := length_lt_of_nextKey hKey
    dsimp only at hFirst
    split at hFirst
    · obtain ⟨inside, hColon, hNumber⟩ := bind_eq_ok_iff.mp hFirst
      have hInside := length_lt_of_colon hColon
      have hRest := length_lt_of_reservedNumber (within_eq_ok_iff.mp hNumber)
      omega
    · obtain ⟨⟨entries, after⟩, hMember, hRest⟩ := bind_eq_ok_iff.mp hFirst
      obtain ⟨⟨members, last⟩, hMembers, hSame⟩ := bind_eq_ok_iff.mp hRest
      cases hSame
      have hAfter := length_le_of_member hNested hMember
      have hLast := length_le_of_members (fun _ _ _ _ _ => length_le_of_member hNested) hMembers
      dsimp only at hAfter hLast ⊢
      omega

end Nested

theorem length_lt_of_value {keep : Keeping} {depth : Nat} {json : Json}
    (h : value keep depth text = .ok (json, rest)) : rest.length < text.length := by
  induction depth generalizing text json rest with
  | zero =>
    obtain ⟨b, unread, hBlank, -, -, hScalar⟩ | ⟨d, _, _, _, hDepth, -⟩ | ⟨d, _, _, hDepth, -⟩ :=
      value_cases h
    · have hLength := Scan.length_skipBlank_le text
      rw [hBlank] at hLength
      exact Nat.lt_of_lt_of_le (length_lt_of_scalar hScalar) hLength
    · cases hDepth
    · cases hDepth
  | succ depth ih =>
    obtain ⟨b, unread, hBlank, -, -, hScalar⟩ | ⟨d, inside, after, items, ⟨⟩, hBlank, -, hItems, hEnd⟩ |
      ⟨d, inside, after, ⟨⟩, hBlank, hBody, hEnd⟩ := value_cases h
    · have hLength := Scan.length_skipBlank_le text
      rw [hBlank] at hLength
      exact Nat.lt_of_lt_of_le (length_lt_of_scalar hScalar) hLength
    · have hInside := Scan.length_lt_of_skipBlank hBlank
      have hAfter := length_le_of_elements (fun _ _ _ h => Nat.le_of_lt (ih h)) hItems
      have hRest := length_lt_of_endList hEnd
      omega
    · have hInside := Scan.length_lt_of_skipBlank hBlank
      have hAfter := length_le_of_objectBody (fun _ _ _ => ih) hBody
      have hRest := length_lt_of_endObject hEnd
      omega

theorem head?_names_add {keep : Keeping} {entries : Entries Json} {name other : String} (json : Json)
    (h : entries.names.head? = some name) : (keep.add entries other json).names.head? = some name := by
  cases entries with
  | nil => cases h
  | cons entry entries =>
    cases keep with
    | data =>
      rw [Keeping.add, Entries.insert]
      split
      · exact h
      · exact h
    | verbatim => exact h

theorem head?_names_of_members {keep : Keeping} {nested : Bytes → Except Fault (Json × Bytes)} {fuel : Nat}
    {first : Bool} {entries members : Entries Json} {name : String} (hName : entries.names.head? = some name)
    (h : Json.members (member keep nested) fuel first entries text = .ok (members, rest)) :
    members.names.head? = some name := by
  refine members_induction (motive := fun entries : Entries Json => entries.names.head? = some name) ?_ hName h
  intro state other text next rest hState hNext
  obtain ⟨inside, -, hMore⟩ := bind_eq_ok_iff.mp hNext
  obtain ⟨⟨json, after⟩, -, hSame⟩ := bind_eq_ok_iff.mp hMore
  cases hSame
  exact head?_names_add json hState

theorem head?_names_of_member {keep : Keeping} {nested : Bytes → Except Fault (Json × Bytes)}
    {next : Entries Json} {name : String} (h : member keep nested [] name text = .ok (next, rest)) :
    next.names.head? = some name := by
  obtain ⟨inside, -, hMore⟩ := bind_eq_ok_iff.mp h
  obtain ⟨⟨json, after⟩, -, hSame⟩ := bind_eq_ok_iff.mp hMore
  cases hSame
  cases keep <;> rfl

section Objects

variable {keep : Keeping} {nested : Bytes → Except Fault (Json × Bytes)} {entries : Entries Json}

theorem objectBody_cases {json : Json} (h : objectBody keep nested text = .ok (json, rest)) :
    (∃ entries, json = .object entries) ∨ (keep = .data ∧ ∃ n, json = .number n) := by
  obtain ⟨⟨first, behind⟩, -, hFirst⟩ := bind_eq_ok_iff.mp h
  cases first with
  | none =>
    cases hFirst
    exact .inl ⟨[], rfl⟩
  | some name =>
    dsimp only at hFirst
    split at hFirst
    · rename_i hReserved
      obtain ⟨inside, -, hNumber⟩ := bind_eq_ok_iff.mp hFirst
      obtain ⟨n, rfl⟩ := exists_of_reservedNumber (within_eq_ok_iff.mp hNumber)
      exact .inr ⟨hReserved.1, n, rfl⟩
    · obtain ⟨_, -, hRest⟩ := bind_eq_ok_iff.mp hFirst
      obtain ⟨⟨members, after⟩, -, hSame⟩ := bind_eq_ok_iff.mp hRest
      cases hSame
      exact .inl ⟨members, rfl⟩

section Loop

variable (hNested : ∀ text json rest, nested text = .ok (json, rest) → rest.length < text.length)

include hNested

theorem members_of_objectBody (h : objectBody keep nested text = .ok (.object entries, rest)) :
    members (member keep nested) (text.length + 1) true [] text = .ok (entries, rest) ∧
      (keep = .data → entries.names.head? ≠ some reservedKey) := by
  obtain ⟨⟨first, behind⟩, hNext, hFirst⟩ := bind_eq_ok_iff.mp h
  cases first with
  | none =>
    cases hFirst
    exact ⟨bind_eq_ok_iff.mpr ⟨_, hNext, rfl⟩, fun _ => nofun⟩
  | some name =>
    dsimp only at hFirst
    split at hFirst
    · obtain ⟨inside, -, hNumber⟩ := bind_eq_ok_iff.mp hFirst
      obtain ⟨n, hSame⟩ := exists_of_reservedNumber (within_eq_ok_iff.mp hNumber)
      cases hSame
    · rename_i hReserved
      obtain ⟨⟨next, after⟩, hMember, hRest⟩ := bind_eq_ok_iff.mp hFirst
      obtain ⟨⟨members, last⟩, hMembers, hSame⟩ := bind_eq_ok_iff.mp hRest
      cases hSame
      have hHead := head?_names_of_members (head?_names_of_member hMember) hMembers
      have hName := length_lt_of_nextKey (within_eq_ok_iff.mp hNext)
      have hAfter := length_le_of_member hNested hMember
      have hMore := members_of_length_lt (fun _ _ _ _ _ => length_le_of_member hNested) hMembers
        (Nat.lt_of_le_of_lt hAfter hName)
      refine ⟨bind_eq_ok_iff.mpr ⟨_, hNext, bind_eq_ok_iff.mpr ⟨_, hMember, hMore⟩⟩, fun hData hSame => ?_⟩
      rw [hHead] at hSame
      exact hReserved ⟨hData, Option.some.inj hSame⟩

theorem objectBody_of_members
    (h : members (member keep nested) (text.length + 1) true [] text = .ok (entries, rest))
    (hKey : keep = .data → entries.names.head? ≠ some reservedKey) :
    objectBody keep nested text = .ok (.object entries, rest) := by
  obtain ⟨⟨first, behind⟩, hNext, hFirst⟩ := bind_eq_ok_iff.mp h
  refine bind_eq_ok_iff.mpr ⟨_, hNext, ?_⟩
  cases first with
  | none =>
    cases hFirst
    rfl
  | some name =>
    obtain ⟨⟨next, after⟩, hMember, hRest⟩ := bind_eq_ok_iff.mp hFirst
    have hHead := head?_names_of_members (head?_names_of_member hMember) hRest
    have hReserved : ¬ (keep = .data ∧ name = reservedKey) := by
      rintro ⟨hData, rfl⟩
      exact hKey hData hHead
    have hMore := members_of_length_lt (fun _ _ _ _ _ => length_le_of_member hNested) hRest
      (Nat.lt_succ_self _)
    dsimp only
    rw [if_neg hReserved]
    exact bind_eq_ok_iff.mpr ⟨_, hMember, bind_eq_ok_iff.mpr ⟨_, hMore, rfl⟩⟩

/-- Only the look at the first key sets the reading of an object apart from the plain loop. -/
theorem objectBody_eq_ok_iff :
    objectBody keep nested text = .ok (.object entries, rest) ↔
      members (member keep nested) (text.length + 1) true [] text = .ok (entries, rest) ∧
        (keep = .data → entries.names.head? ≠ some reservedKey) :=
  ⟨members_of_objectBody hNested, fun ⟨h, hKey⟩ => objectBody_of_members hNested h hKey⟩

end Loop

end Objects

end CircuitForm.Json
