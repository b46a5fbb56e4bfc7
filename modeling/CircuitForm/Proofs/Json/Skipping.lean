import Mathlib.Data.List.DropRight
import CircuitForm.Json.Skip
import CircuitForm.Proofs.Json.Consumption

/-!
# Skipping over values that can be read

Where a value can be read verbatim, skipping it ends at the same place. The other way round is not
so: a skipped value may nest to any depth, and its strings need not be text.
-/

namespace CircuitForm.Json

variable {text rest : Bytes}

namespace Scan

theorem skipBlank_of_skipBlank {b : UInt8} (h : skipBlank text = b :: rest) :
    skipBlank (b :: rest) = b :: rest := by
  rw [← h]
  exact List.dropWhile_idempotent isBlank text

variable {atEnd other : Malformed}

theorem whole_of_whole {ds : WholeDigits} (h : whole atEnd text = .ok (ds, rest)) :
    whole other text = .ok (ds, rest) := by
  cases text with
  | nil => cases h
  | cons b text => exact h

theorem fraction_of_fraction {ds : Option Digits} (h : fraction atEnd text = .ok (ds, rest)) :
    fraction other text = .ok (ds, rest) := by
  cases text with
  | nil => exact h
  | cons b text =>
    rw [fraction] at h ⊢
    split at h
    · rename_i hByte
      rw [if_pos hByte]
      split at h
      · cases h
      · exact h
    · rename_i hByte
      rw [if_neg hByte]
      exact h

theorem exponent_of_exponent {e : Option Exponent} (h : exponent atEnd text = .ok (e, rest)) :
    exponent other text = .ok (e, rest) := by
  cases text with
  | nil => exact h
  | cons b text =>
    rw [exponent] at h ⊢
    split at h
    · rename_i hByte
      rw [if_pos hByte]
      split at h
      · cases h
      · exact h
    · rename_i hByte
      rw [if_neg hByte]
      exact h

/-- The fault of a text that ends too soon is all that differs between readers of numbers. -/
theorem numeral_of_numeral {n : Numeral} (h : numeral atEnd text = .ok (n, rest)) :
    numeral other text = .ok (n, rest) := by
  obtain ⟨⟨ds, afterWhole⟩, hWhole, hMore⟩ := bind_eq_ok_iff.mp h
  obtain ⟨⟨ds, afterFraction⟩, hFraction, hEnd⟩ := bind_eq_ok_iff.mp hMore
  obtain ⟨⟨e, afterExponent⟩, hExponent, hNumeral⟩ := bind_eq_ok_iff.mp hEnd
  refine bind_eq_ok_iff.mpr ⟨_, whole_of_whole hWhole, ?_⟩
  refine bind_eq_ok_iff.mpr ⟨_, fraction_of_fraction hFraction, ?_⟩
  exact bind_eq_ok_iff.mpr ⟨_, exponent_of_exponent hExponent, hNumeral⟩

end Scan

theorem value_skipBlank {keep : Keeping} {depth : Nat} (text : Bytes) :
    value keep depth (Scan.skipBlank text) = value keep depth text := by
  have hBlank : Scan.skipBlank (Scan.skipBlank text) = Scan.skipBlank text :=
    List.dropWhile_idempotent Scan.isBlank text
  cases depth <;> rw [value, valueWith, valueWith, hBlank]

namespace Skip

theorem string_of_quote {unread : Bytes} {fuel : Nat}
    (h : text.dropWhile Scan.isPlain = Ascii.quote :: unread) : string (fuel + 1) text = .ok unread := by
  rw [string, h]
  exact if_pos rfl

theorem string_of_escaped {c : UInt8} {unread : Bytes} {fuel : Nat}
    (h : text.dropWhile Scan.isPlain = Ascii.backslash :: c :: unread)
    (hByte : (Scan.escapedByte? c).isSome = true) : string (fuel + 1) text = string fuel unread := by
  rw [string, h]
  dsimp only
  rw [if_neg (by decide), if_pos rfl, if_pos hByte]

theorem string_of_code {unread after : Bytes} {code fuel : Nat}
    (h : text.dropWhile Scan.isPlain = Ascii.backslash :: Ascii.ofChar 'u' :: unread)
    (hCode : Scan.fourHex unread = .ok (code, after)) : string (fuel + 1) text = string fuel after := by
  rw [string, h]
  dsimp only
  rw [if_neg (by decide), if_pos rfl, if_neg (by decide), if_pos rfl, hCode]
  rfl

/-- A surrogate pair is one escape to a reader and two to this one, so the fuel is not the same. -/
theorem string_of_escape {unread : Bytes} (hText : text.dropWhile Scan.isPlain = Ascii.backslash :: unread)
    {piece after : Bytes} (hEscape : Scan.escape unread = .ok (piece, after))
    (hAfter : ∀ enough, after.length < enough → string enough after = .ok rest) {enough : Nat}
    (hEnough : unread.length < enough) : string (enough + 1) text = .ok rest := by
  have hLength := Scan.length_lt_of_escape hEscape
  cases unread with
  | nil => cases hEscape
  | cons c unread =>
    rw [Scan.escape] at hEscape
    split at hEscape
    · rename_i byte hByte
      cases hEscape
      rw [string_of_escaped hText (by rw [hByte]; rfl)]
      exact hAfter enough (Nat.lt_trans hLength hEnough)
    · split at hEscape
      · rename_i hLetter
        obtain ⟨⟨code, behind⟩, hCode, hSame⟩ := map_eq_ok_iff.mp hEscape
        cases hSame
        rw [hLetter] at hText
        obtain ⟨one, hOne⟩ | ⟨high, low, between, hHigh, hLow⟩ := Scan.codePoint_cases hCode
        · rw [string_of_code hText hOne]
          exact hAfter enough (Nat.lt_trans hLength hEnough)
        · have hFirst := Scan.length_of_fourHex hHigh
          have hSecond := Scan.length_of_fourHex hLow
          simp only [List.length_cons] at hFirst hEnough
          cases enough with
          | zero => cases hEnough
          | succ enough =>
            rw [string_of_code hText hHigh, string_of_code (by rfl) hLow]
            exact hAfter enough (by omega)
      · cases hEscape

theorem string_of_content {fuel enough : Nat} {bytes : Bytes} (h : Scan.content fuel text = .ok (bytes, rest))
    (hEnough : text.length < enough) : string enough text = .ok rest := by
  induction fuel generalizing text bytes enough with
  | zero => cases h
  | succ fuel ih =>
    have hPlain := (List.dropWhile_suffix Scan.isPlain (l := text)).length_le
    cases enough with
    | zero => cases hEnough
    | succ enough =>
      rw [Scan.content] at h
      split at h
      · cases h
      · rename_i b unread hDrop
        rw [hDrop, List.length_cons] at hPlain
        split at h
        · rename_i hQuote
          cases h
          exact string_of_quote (hQuote ▸ hDrop)
        · split at h
          · rename_i hBackslash
            obtain ⟨⟨piece, after⟩, hEscape, hMore⟩ := bind_eq_ok_iff.mp h
            obtain ⟨⟨more, last⟩, hContent, hSame⟩ := bind_eq_ok_iff.mp hMore
            cases hSame
            exact string_of_escape (hBackslash ▸ hDrop) hEscape (fun _ => ih hContent) (by omega)
          · cases h

theorem string_of_string {s : String} (h : Scan.string text = .ok (s, rest)) :
    string (text.length + 1) text = .ok rest := by
  obtain ⟨⟨bytes, after⟩, hContent, hString⟩ := bind_eq_ok_iff.mp h
  dsimp only at hString
  split at hString
  · cases hString
    exact string_of_content hContent (Nat.lt_succ_self _)
  · cases hString

theorem scalar_of_scalar {b : UInt8} {unread : Bytes} {json : Json}
    (h : Json.scalar (b :: unread) = .ok (json, rest)) : scalar (b :: unread) = .ok rest := by
  obtain ⟨rfl, -, hWord⟩ | ⟨rfl, -, hWord⟩ | ⟨rfl, -, hWord⟩ | ⟨hNull, hTrue, hFalse, hDigit, n, -, hNumeral⟩ |
    ⟨rfl, s, -, hString⟩ := scalar_cases h
  · exact hWord
  · exact hWord
  · exact hWord
  · rw [scalar, if_neg hNull, if_neg hTrue, if_neg hFalse, if_pos hDigit, Scan.numeral_of_numeral hNumeral]
    rfl
  · exact string_of_string hString

/-- With fuel for its bytes, the text is passed over down to its last part. -/
def Finishes (pending : List Pending) (text last : Bytes) : Prop :=
  ∀ fuel, text.length < fuel → run fuel pending text = .ok last

variable {later next : List Pending} {last after : Bytes}

theorem finishes_nil (text : Bytes) : Finishes [] text text := by
  rintro (_ | fuel) hFuel
  · cases hFuel
  · rfl

theorem finishes_of_step {first : Pending} (hStep : step first later text = .ok (next, after))
    (hAfter : after.length < text.length) (h : Finishes next after last) :
    Finishes (first :: later) text last := by
  rintro (_ | fuel) hFuel
  · cases hFuel
  · exact bind_eq_ok_iff.mpr ⟨_, hStep, h fuel (by omega)⟩

theorem key_of_string {name : String} {inside behind : Bytes}
    (hQuote : Scan.skipBlank text = Ascii.quote :: inside) (hName : Scan.string inside = .ok (name, behind))
    (hColon : colon behind = .ok after) : key text = .ok after := by
  rw [key, hQuote]
  dsimp only
  rw [if_pos rfl]
  exact bind_eq_ok_iff.mpr ⟨_, string_of_string hName, hColon⟩

section Rounds

variable {inside unread behind : Bytes}

theorem step_scalar {b : UInt8} {json : Json} (hText : Scan.skipBlank text = b :: unread)
    (hBracket : b ≠ Ascii.openBracket) (hBrace : b ≠ Ascii.openBrace)
    (h : Json.scalar (b :: unread) = .ok (json, after)) : step .value later text = .ok (later, after) := by
  rw [step.eq_def, hText]
  dsimp only
  rw [if_neg hBracket, if_neg hBrace, scalar_of_scalar h]
  rfl

theorem step_emptyList (hText : Scan.skipBlank text = Ascii.openBracket :: inside)
    (hInside : Scan.skipBlank inside = Ascii.closeBracket :: unread) :
    step .value later text = .ok (later, unread) := by
  rw [step.eq_def, hText]
  dsimp only
  rw [if_pos rfl, hInside]
  exact if_pos rfl

theorem step_list {c : UInt8} (hText : Scan.skipBlank text = Ascii.openBracket :: inside)
    (hInside : Scan.skipBlank inside = c :: unread) (hClose : c ≠ Ascii.closeBracket) :
    step .value later text = .ok (.value :: .listRest :: later, c :: unread) := by
  rw [step.eq_def, hText]
  dsimp only
  rw [if_pos rfl, hInside]
  exact if_neg hClose

theorem step_emptyObject (hText : Scan.skipBlank text = Ascii.openBrace :: inside)
    (hInside : Scan.skipBlank inside = Ascii.closeBrace :: unread) :
    step .value later text = .ok (later, unread) := by
  rw [step.eq_def, hText]
  dsimp only
  rw [if_neg (by decide), if_pos rfl, hInside]
  exact if_pos rfl

theorem step_object (hText : Scan.skipBlank text = Ascii.openBrace :: inside)
    (hInside : Scan.skipBlank inside = Ascii.quote :: unread) (hKey : key (Ascii.quote :: unread) = .ok after) :
    step .value later text = .ok (.value :: .objectRest :: later, after) := by
  rw [step.eq_def, hText]
  dsimp only
  rw [if_neg (by decide), if_pos rfl, hInside]
  dsimp only
  rw [if_neg (by decide), hKey]
  rfl

theorem step_nextElement (hText : Scan.skipBlank text = Ascii.comma :: behind) :
    step .listRest later text = .ok (.value :: .listRest :: later, behind) := by
  rw [step.eq_def, hText]
  exact if_pos rfl

theorem step_endList (hText : Scan.skipBlank text = Ascii.closeBracket :: behind) :
    step .listRest later text = .ok (later, behind) := by
  rw [step.eq_def, hText]
  dsimp only
  rw [if_neg (by decide)]
  exact if_pos rfl

theorem step_nextMember (hText : Scan.skipBlank text = Ascii.comma :: behind) (hKey : key behind = .ok after) :
    step .objectRest later text = .ok (.value :: .objectRest :: later, after) := by
  rw [step.eq_def, hText]
  dsimp only
  rw [if_pos rfl, hKey]
  rfl

theorem step_endObject (hText : Scan.skipBlank text = Ascii.closeBrace :: behind) :
    step .objectRest later text = .ok (later, behind) := by
  rw [step.eq_def, hText]
  dsimp only
  rw [if_neg (by decide)]
  exact if_pos rfl

end Rounds

section Nested

variable {nested : Bytes → Except Fault (Json × Bytes)}
  (hBlank : ∀ text, nested (Scan.skipBlank text) = nested text)
  (hNested : ∀ {text json rest later last}, nested text = .ok (json, rest) → Finishes later rest last →
    Finishes (.value :: later) text last)

include hBlank hNested

theorem finishes_of_elements {fuel index : Nat} {items : List Json} (hIndex : (index == 0) = false)
    (h : elements nested fuel index text = .ok (items, after)) (hEnd : endList after = .ok rest)
    (hLater : Finishes later rest last) : Finishes (.listRest :: later) text last := by
  induction fuel generalizing index text items with
  | zero => cases h
  | succ fuel ih =>
    obtain ⟨⟨more, found⟩, hNext, hMore⟩ := bind_eq_ok_iff.mp h
    rw [hIndex] at hNext
    obtain ⟨rfl, behind, rfl, hClose⟩ | ⟨rfl, b, behind, -, -, ⟨hFirst, -⟩ | ⟨-, between, hComma, rfl⟩⟩ :=
      nextElement_cases hNext
    · cases hMore
      cases eq_cons_of_endList hEnd
      exact finishes_of_step (step_endList hClose) (Scan.length_lt_of_skipBlank hClose) hLater
    · cases hFirst
    · obtain ⟨⟨json, behindItem⟩, hItem, hRest⟩ := bind_eq_ok_iff.mp hMore
      obtain ⟨⟨others, last⟩, hOthers, hItems⟩ := bind_eq_ok_iff.mp hRest
      cases hItems
      have hRead := within_eq_ok_iff.mp hItem
      rw [hBlank] at hRead
      exact finishes_of_step (step_nextElement hComma) (Scan.length_lt_of_skipBlank hComma)
        (hNested hRead (ih rfl hOthers))

theorem finishes_of_list {inside : Bytes} {fuel : Nat} {items : List Json}
    (hText : Scan.skipBlank text = Ascii.openBracket :: inside)
    (h : elements nested fuel 0 inside = .ok (items, after)) (hEnd : endList after = .ok rest)
    (hLater : Finishes later rest last) : Finishes (.value :: later) text last := by
  have hInside := Scan.length_lt_of_skipBlank hText
  cases fuel with
  | zero => cases h
  | succ fuel =>
    obtain ⟨⟨more, found⟩, hNext, hMore⟩ := bind_eq_ok_iff.mp h
    obtain ⟨rfl, behind, rfl, hFound⟩ | ⟨rfl, b, behind, rfl, hClose, ⟨-, hFound⟩ | ⟨hFirst, -⟩⟩ :=
      nextElement_cases hNext
    · cases hMore
      cases eq_cons_of_endList hEnd
      have hBehind := Scan.length_lt_of_skipBlank hFound
      exact finishes_of_step (step_emptyList hText hFound) (Nat.lt_trans hBehind hInside) hLater
    · obtain ⟨⟨json, behindItem⟩, hItem, hRest⟩ := bind_eq_ok_iff.mp hMore
      obtain ⟨⟨others, last⟩, hOthers, hItems⟩ := bind_eq_ok_iff.mp hRest
      cases hItems
      have hLength := Scan.length_skipBlank_le inside
      rw [hFound] at hLength
      exact finishes_of_step (step_list hText hFound hClose) (Nat.lt_of_le_of_lt hLength hInside)
        (hNested (within_eq_ok_iff.mp hItem)
          (finishes_of_elements hBlank hNested rfl hOthers hEnd hLater))
    · cases hFirst

omit hBlank in
/-- What follows a key is the same for the first member and for any other. -/
theorem finishes_of_member {entries next : Entries Json} {name : String} {inside behind : Bytes}
    (h : member .verbatim nested entries name text = .ok (next, rest))
    (hQuote : Scan.skipBlank inside = Ascii.quote :: behind) (hName : Scan.string behind = .ok (name, text))
    (hLater : Finishes later rest last) :
    ∃ after, key inside = .ok after ∧ after.length < inside.length ∧ Finishes (.value :: later) after last := by
  obtain ⟨after, hColon, hMore⟩ := bind_eq_ok_iff.mp h
  obtain ⟨⟨json, found⟩, hValue, hSame⟩ := bind_eq_ok_iff.mp hMore
  cases hSame
  have hBehind := Scan.length_lt_of_skipBlank hQuote
  have hText := Scan.length_lt_of_string hName
  have hAfter := length_lt_of_colon hColon
  exact ⟨after, key_of_string hQuote hName hColon, by omega, hNested (within_eq_ok_iff.mp hValue) hLater⟩

omit hBlank in
theorem finishes_of_members {fuel : Nat} {entries members : Entries Json}
    (h : Json.members (member .verbatim nested) fuel false entries text = .ok (members, after))
    (hEnd : endObject after = .ok rest) (hLater : Finishes later rest last) :
    Finishes (.objectRest :: later) text last := by
  induction fuel generalizing entries text with
  | zero => cases h
  | succ fuel ih =>
    obtain ⟨⟨found, behindKey⟩, hNext, hMore⟩ := bind_eq_ok_iff.mp h
    obtain ⟨rfl, behind, rfl, hClose⟩ | ⟨name, inside, rfl, hName, ⟨hFirst, -⟩ | ⟨-, between, hComma, hQuote⟩⟩ :=
      nextKey_cases (within_eq_ok_iff.mp hNext)
    · cases hMore
      cases eq_cons_of_endObject hEnd
      exact finishes_of_step (step_endObject hClose) (Scan.length_lt_of_skipBlank hClose) hLater
    · cases hFirst
    · obtain ⟨⟨next, behindMember⟩, hMember, hRest⟩ := bind_eq_ok_iff.mp hMore
      obtain ⟨behindColon, hKey, hLength, hValue⟩ := finishes_of_member hNested hMember hQuote hName (ih hRest)
      have hBetween := Scan.length_lt_of_skipBlank hComma
      exact finishes_of_step (step_nextMember hComma hKey) (Nat.lt_trans hLength hBetween) hValue

omit hBlank in
theorem finishes_of_object {inside : Bytes} {fuel : Nat} {members : Entries Json}
    (hText : Scan.skipBlank text = Ascii.openBrace :: inside)
    (h : Json.members (member .verbatim nested) fuel true [] inside = .ok (members, after))
    (hEnd : endObject after = .ok rest) (hLater : Finishes later rest last) :
    Finishes (.value :: later) text last := by
  have hInside := Scan.length_lt_of_skipBlank hText
  cases fuel with
  | zero => cases h
  | succ fuel =>
    obtain ⟨⟨found, behindKey⟩, hNext, hMore⟩ := bind_eq_ok_iff.mp h
    obtain ⟨rfl, behind, rfl, hClose⟩ | ⟨name, unread, rfl, hName, ⟨-, hQuote⟩ | ⟨hFirst, -⟩⟩ :=
      nextKey_cases (within_eq_ok_iff.mp hNext)
    · cases hMore
      cases eq_cons_of_endObject hEnd
      have hBehind := Scan.length_lt_of_skipBlank hClose
      exact finishes_of_step (step_emptyObject hText hClose) (Nat.lt_trans hBehind hInside) hLater
    · obtain ⟨⟨next, behindMember⟩, hMember, hRest⟩ := bind_eq_ok_iff.mp hMore
      obtain ⟨behindColon, hKey, hLength, hValue⟩ := finishes_of_member hNested hMember
        (Scan.skipBlank_of_skipBlank hQuote) hName (finishes_of_members hNested hRest hEnd hLater)
      have hFound := Scan.length_skipBlank_le inside
      rw [hQuote] at hFound
      exact finishes_of_step (step_object hText hQuote hKey) (by omega) hValue
    · cases hFirst

end Nested

/-- Whatever follows the value is passed over from where its reader ends. -/
theorem finishes_of_value {depth : Nat} {json : Json} (h : Json.value .verbatim depth text = .ok (json, rest))
    (hLater : Finishes later rest last) : Finishes (.value :: later) text last := by
  induction depth using Nat.strongRecOn generalizing text json rest later last with
  | ind depth ih =>
    obtain ⟨b, unread, hText, hBracket, hBrace, hScalar⟩ |
      ⟨d, inside, after, items, rfl, hText, rfl, hItems, hEnd⟩ | ⟨d, inside, after, rfl, hText, hBody, hEnd⟩ :=
      value_cases h
    · have hLength := Scan.length_skipBlank_le text
      rw [hText] at hLength
      exact finishes_of_step (step_scalar hText hBracket hBrace hScalar)
        (Nat.lt_of_lt_of_le (length_lt_of_scalar hScalar) hLength) hLater
    · exact finishes_of_list value_skipBlank (ih d (Nat.lt_succ_self d)) hText hItems hEnd hLater
    · obtain ⟨members, rfl⟩ | ⟨hData, -⟩ := objectBody_cases hBody
      · have hMembers := ((objectBody_eq_ok_iff fun _ _ _ => length_lt_of_value).mp hBody).1
        exact finishes_of_object (ih d (Nat.lt_succ_self d)) hText hMembers hEnd hLater
      · cases hData

theorem value_of_value {depth : Nat} {json : Json} (h : Json.value .verbatim depth text = .ok (json, rest)) :
    value text = .ok rest :=
  finishes_of_value h (finishes_nil rest) _ (Nat.lt_succ_self _)

end Skip

end CircuitForm.Json
