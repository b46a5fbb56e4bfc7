import CircuitForm.Json.Printer
import CircuitForm.Json.Reader
import CircuitForm.Proofs.Json.NumberText
import CircuitForm.Proofs.Outcome
import CircuitForm.Proofs.Text.Bytes
import CircuitForm.Proofs.Text.Run

/-!
# Tokens read back

A printed scalar is read back as it was, whatever is behind it, as long as a number is not
followed by something that would go on with it. In a printed text a blank, a comma or a
closing bracket always comes next.
-/

namespace CircuitForm.Json

open Bytes (ofChars)
open NumberText (fractionChars exponentChars)

/-- The next byte, if there is one. -/
def Next (p : UInt8 → Prop) (rest : Bytes) : Prop :=
  ∀ b ∈ rest.head?, p b

theorem Next.imp {p q : UInt8 → Prop} {rest : Bytes} (h : Next p rest) (hImp : ∀ b, p b → q b) :
    Next q rest :=
  fun b hByte => hImp b (h b hByte)

theorem next_cons {p : UInt8 → Prop} {b : UInt8} (h : p b) (rest : Bytes) : Next p (b :: rest) := by
  intro c hByte
  cases hByte
  exact h

def IsDelimiter (b : UInt8) : Prop :=
  Scan.isBlank b = true ∨ b = Ascii.comma ∨ b = Ascii.closeBracket ∨ b = Ascii.closeBrace

abbrev Delimited (rest : Bytes) : Prop :=
  Next IsDelimiter rest

namespace Scan

theorem ofByte?_char (d : Digit) : Digit.ofByte? (Ascii.ofChar d.char) = some d := by
  revert d
  decide

theorem ofChars_cons_digit (d : Digit) (cs : List Char) :
    ofChars (d.char :: cs) = Ascii.ofChar d.char :: ofChars cs := by
  have hAscii : ∀ d : Digit, d.char.toNat < 128 := by decide
  exact Bytes.ofChars_cons_of_lt (hAscii d) cs

theorem ofChars_digits (ds : List Digit) :
    ofChars (ds.map Digit.char) = ds.map fun d => Ascii.ofChar d.char := by
  induction ds with
  | nil => rfl
  | cons d ds ih => rw [List.map_cons, ofChars_cons_digit, ih, List.map_cons]

theorem digits_append (ds : List Digit) {rest : Bytes} (hRest : Next (isDigit · = false) rest) :
    digits (ofChars (ds.map Digit.char) ++ rest) = (ds, rest) := by
  have hDigits : ∀ b ∈ ofChars (ds.map Digit.char), isDigit b = true := by
    intro b hByte
    rw [ofChars_digits] at hByte
    obtain ⟨d, -, rfl⟩ := List.mem_map.mp hByte
    rw [isDigit, ofByte?_char, Option.isSome_some]
  rw [digits, Text.takeWhile_append hDigits hRest, Text.dropWhile_append hDigits hRest,
    ofChars_digits, List.filterMap_map]
  have hBack : Digit.ofByte? ∘ (fun d : Digit => Ascii.ofChar d.char) = some := funext ofByte?_char
  rw [hBack, List.filterMap_some]

theorem whole_append (atEnd : Malformed) (ds : WholeDigits) {rest : Bytes}
    (hRest : Next (isDigit · = false) rest) :
    whole atEnd (ofChars ds.val.chars ++ rest) = .ok (ds, rest) := by
  obtain ⟨⟨first, more⟩, hZero⟩ := ds
  rw [Digits.chars, Digits.toList, List.map_cons, ofChars_cons_digit, List.cons_append, whole,
    ofByte?_char]
  dsimp only at hZero ⊢
  split
  · rename_i hFirst
    cases hZero hFirst
    have hNone : (rest.head?.map isDigit).getD false = false := by
      cases rest with
      | nil => rfl
      | cons b rest => exact hRest b rfl
    simp [hNone]
  · simp only [digits_append more hRest]

theorem fraction_append (atEnd : Malformed) (ds : Option Digits) {rest : Bytes}
    (hRest : Next (fun b => isDigit b = false ∧ b ≠ Ascii.point) rest) :
    fraction atEnd (ofChars (fractionChars ds) ++ rest) = .ok (ds, rest) := by
  cases ds with
  | none =>
    cases rest with
    | nil => rfl
    | cons b rest => exact if_neg (hRest b rfl).2
  | some ds =>
    have hPoint : ofChars (fractionChars (some ds)) = Ascii.point :: ofChars (ds.toList.map Digit.char) :=
      Bytes.ofChars_cons_of_lt (by decide) _
    rw [hPoint, List.cons_append, fraction, if_pos rfl, digits_append _ (hRest.imp fun b h => h.1)]
    rfl

theorem next_fractionChars (ds : Option Digits) {rest : Bytes} (hRest : Next (isDigit · = false) rest) :
    Next (isDigit · = false) (ofChars (fractionChars ds) ++ rest) := by
  cases ds with
  | none => exact hRest
  | some ds =>
    rw [fractionChars, Bytes.ofChars_cons_of_lt (by decide)]
    exact next_cons (by decide) _

theorem sign_append (s : ExponentSign) {rest : Bytes}
    (hRest : Next (fun b => b ≠ Ascii.minus ∧ b ≠ Ascii.plus) rest) :
    sign (ofChars s.chars ++ rest) = (s.isMinus, rest) := by
  cases s with
  | absent =>
    cases rest with
    | nil => rfl
    | cons b rest =>
      obtain ⟨hMinus, hPlus⟩ := hRest b rfl
      rw [ExponentSign.chars, Bytes.ofChars_nil, List.nil_append, sign, if_neg hMinus, if_neg hPlus]
      rfl
  | plus | minus => rfl

/-- A byte that may come behind a number goes on with none of its parts. -/
theorem ends_of_isDelimiter {b : UInt8} (h : IsDelimiter b) :
    (isDigit b = false ∧ b ≠ Ascii.point) ∧ b ≠ Ascii.ofChar 'e' ∧ b ≠ Ascii.ofChar 'E' := by
  simp only [IsDelimiter, isBlank, Bool.or_eq_true, beq_iff_eq] at h
  rcases h with (((rfl | rfl) | rfl) | rfl) | rfl | rfl | rfl <;> decide

theorem digit_ne_sign : ∀ d : Digit, Ascii.ofChar d.char ≠ Ascii.minus ∧ Ascii.ofChar d.char ≠ Ascii.plus := by
  decide

theorem ofChars_exponent (e : ExponentText) : ofChars e.chars = Ascii.ofChar e.mark ::
    (ofChars e.sign.chars ++ Ascii.ofChar e.digits.first.char :: ofChars (e.digits.more.map Digit.char)) := by
  have hMark : e.mark.toNat < 128 := by
    rw [ExponentText.mark]
    split <;> decide
  rw [ExponentText.chars, Bytes.ofChars_cons_of_lt hMark, Bytes.ofChars_append, Digits.chars, Digits.toList,
    List.map_cons, ofChars_cons_digit]

theorem exponent_append (atEnd : Malformed) (e : Option ExponentText) {rest : Bytes}
    (hRest : Delimited rest) :
    exponent atEnd (ofChars (exponentChars e) ++ rest) = .ok (e.map ExponentText.exponent, rest) := by
  cases e with
  | none =>
    cases rest with
    | nil => rfl
    | cons b rest =>
      have hEnds := (ends_of_isDelimiter (hRest b rfl)).2
      rw [exponentChars, Bytes.ofChars_nil, List.nil_append, exponent, if_neg]
      · rfl
      · rwa [Bool.or_eq_true, decide_eq_true_eq, decide_eq_true_eq, not_or]
  | some e =>
    have hMark : (Ascii.ofChar e.mark = Ascii.ofChar 'e' || Ascii.ofChar e.mark = Ascii.ofChar 'E') = true := by
      rw [ExponentText.mark]
      split <;> decide
    rw [exponentChars, ofChars_exponent, List.cons_append, List.append_assoc, List.cons_append, exponent,
      if_pos hMark, sign_append e.sign (next_cons (digit_ne_sign _) _)]
    dsimp only
    rw [ofByte?_char]
    dsimp only
    rw [digits_append e.digits.more (hRest.imp fun b h => (ends_of_isDelimiter h).1.1)]
    rfl

theorem next_exponentChars (e : Option ExponentText) {rest : Bytes} (hRest : Delimited rest) :
    Next (fun b => isDigit b = false ∧ b ≠ Ascii.point) (ofChars (exponentChars e) ++ rest) := by
  cases e with
  | none => exact hRest.imp fun b h => (ends_of_isDelimiter h).1
  | some e =>
    rw [exponentChars, ofChars_exponent]
    refine next_cons ?_ _
    rw [ExponentText.mark]
    split <;> decide

theorem minus_append (negative : Bool) {rest : Bytes} (hRest : Next (· ≠ Ascii.minus) rest) :
    minus (ofChars (if negative then ['-'] else []) ++ rest) = (negative, rest) := by
  cases negative with
  | true => rfl
  | false =>
    cases rest with
    | nil => rfl
    | cons b rest => exact if_neg (hRest b rfl)

/-- However a number is spelled, the numeral that it stands for is read. -/
theorem numeral_text_append (atEnd : Malformed) (t : NumberText) {rest : Bytes} (hRest : Delimited rest) :
    numeral atEnd (ofChars t.chars ++ rest) = .ok (t.numeral, rest) := by
  have hExponent := next_exponentChars t.exponent hRest
  have hFraction := next_fractionChars t.fraction (hExponent.imp fun b h => h.1)
  have hWhole : ∀ tail, Next (· ≠ Ascii.minus) (ofChars t.whole.val.chars ++ tail) := by
    intro tail
    rw [Digits.chars, Digits.toList, List.map_cons, ofChars_cons_digit]
    refine next_cons ?_ _
    exact (digit_ne_sign _).1
  rw [NumberText.chars]
  simp only [Bytes.ofChars_append, List.append_assoc]
  rw [numeral, minus_append t.negative (hWhole _), whole_append atEnd t.whole hFraction]
  simp only [bind, Except.bind, fraction_append atEnd t.fraction hExponent,
    exponent_append atEnd t.exponent hRest]
  rfl

/-- Bytes that stand for themselves are put in front of what is read behind them. -/
theorem content_append {piece : Bytes} (hPiece : ∀ b ∈ piece, isPlain b = true) {fuel : Nat}
    {text bytes rest : Bytes} (h : content fuel text = .ok (bytes, rest)) :
    content fuel (piece ++ text) = .ok (piece ++ bytes, rest) := by
  cases fuel with
  | zero => cases h
  | succ fuel =>
    rw [content] at h ⊢
    rw [List.dropWhile_append_of_pos hPiece, List.takeWhile_append_of_pos hPiece]
    cases hDrop : text.dropWhile isPlain with
    | nil =>
      rw [hDrop] at h
      cases h
    | cons b unread =>
      rw [hDrop] at h
      dsimp only at h ⊢
      by_cases hQuote : b = Ascii.quote
      · rw [if_pos hQuote] at h ⊢
        cases h
        rfl
      · rw [if_neg hQuote] at h ⊢
        by_cases hBackslash : b = Ascii.backslash
        · rw [if_pos hBackslash] at h ⊢
          obtain ⟨escaped, hEscape, hMore⟩ := bind_eq_ok_iff.mp h
          obtain ⟨more, hContent, hBytes⟩ := bind_eq_ok_iff.mp hMore
          cases hBytes
          refine bind_eq_ok_iff.mpr ⟨escaped, hEscape, bind_eq_ok_iff.mpr ⟨more, hContent, ?_⟩⟩
          simp only [List.append_assoc]
        · rw [if_neg hBackslash] at h
          cases h

theorem content_escape {fuel : Nat} {text piece after bytes rest : Bytes}
    (hEscape : escape text = .ok (piece, after)) (h : content fuel after = .ok (bytes, rest)) :
    content (fuel + 1) (Ascii.backslash :: text) = .ok (piece ++ bytes, rest) := by
  have hDrop : (Ascii.backslash :: text).dropWhile isPlain = Ascii.backslash :: text := rfl
  have hTake : (Ascii.backslash :: text).takeWhile isPlain = [] := rfl
  rw [content, hDrop]
  dsimp only
  rw [if_neg (by decide), if_pos rfl, hTake]
  exact bind_eq_ok_iff.mpr ⟨_, hEscape, bind_eq_ok_iff.mpr ⟨_, h, rfl⟩⟩

theorem content_quote (fuel : Nat) (rest : Bytes) :
    content (fuel + 1) (Ascii.quote :: rest) = .ok ([], rest) := rfl

theorem isPlain_iff {b : UInt8} :
    isPlain b = true ↔ b.toNat ≠ '"'.toNat ∧ b.toNat ≠ '\\'.toNat ∧ 0x20 ≤ b.toNat := by
  simp only [isPlain, Bool.and_eq_true, bne_iff_ne, decide_eq_true_eq, UInt8.le_iff_toNat_le, ne_eq,
    ← UInt8.toNat_inj, and_assoc]
  exact Iff.rfl

theorem isPlain_of_mem_utf8EncodeChar {c : Char} (hQuote : c ≠ '"') (hBackslash : c ≠ '\\')
    (hControl : 0x20 ≤ c.toNat) {b : UInt8} (hByte : b ∈ String.utf8EncodeChar c) :
    isPlain b = true := by
  rw [isPlain_iff]
  by_cases hAscii : c.toNat < 128
  · rw [Bytes.utf8EncodeChar_of_lt hAscii, List.mem_singleton] at hByte
    have hSame : b.toNat = c.toNat := by
      rw [hByte, Ascii.ofChar, UInt8.toNat_ofNat']
      omega
    rw [hSame]
    exact ⟨fun h => hQuote (Char.toNat_inj.mp h), fun h => hBackslash (Char.toNat_inj.mp h), hControl⟩
  · have hHigh := Bytes.le_of_mem_utf8EncodeChar (Nat.le_of_not_lt hAscii) hByte
    have hQuoteLow : '"'.toNat < 128 := by decide
    have hBackslashLow : '\\'.toNat < 128 := by decide
    omega

theorem hexValue?_digitChar : ∀ d < 16, hexValue? (Ascii.ofChar (Nat.digitChar d)) = some d := by
  decide

theorem codePoint_of_fourHex {text rest : Bytes} {code : Nat} (h : fourHex text = .ok (code, rest))
    (hCode : code < 0xD800) : codePoint text = .ok (Char.ofNat code, rest) := by
  have hLow : isLowSurrogate code = false := by
    simp only [isLowSurrogate, Bool.and_eq_false_iff, decide_eq_false_iff_not]
    omega
  have hHigh : isHighSurrogate code = false := by
    simp only [isHighSurrogate, Bool.and_eq_false_iff, decide_eq_false_iff_not]
    omega
  refine bind_eq_ok_iff.mpr ⟨_, h, ?_⟩
  dsimp only
  rw [hLow, hHigh, if_neg Bool.false_ne_true, if_neg Bool.false_ne_true]

theorem escape_control {c : Char} (h : c.toNat < 0x20) (rest : Bytes) :
    escape (ofChars ['u', '0', '0', Nat.digitChar (c.toNat / 16), Nat.digitChar (c.toNat % 16)] ++ rest) =
      .ok (String.utf8EncodeChar c, rest) := by
  have hAscii : ∀ d < 16, (Nat.digitChar d).toNat < 128 := by decide
  have hBytes : ofChars ['u', '0', '0', Nat.digitChar (c.toNat / 16), Nat.digitChar (c.toNat % 16)] =
      [Ascii.ofChar 'u', Ascii.zero, Ascii.zero, Ascii.ofChar (Nat.digitChar (c.toNat / 16)),
        Ascii.ofChar (Nat.digitChar (c.toNat % 16))] := by
    rw [Bytes.ofChars_cons_of_lt (by decide), Bytes.ofChars_cons_of_lt (by decide),
      Bytes.ofChars_cons_of_lt (by decide), Bytes.ofChars_cons_of_lt (hAscii _ (by omega)),
      Bytes.ofChars_cons_of_lt (hAscii _ (by omega))]
    rfl
  have hHex : fourHex ([Ascii.zero, Ascii.zero, Ascii.ofChar (Nat.digitChar (c.toNat / 16)),
      Ascii.ofChar (Nat.digitChar (c.toNat % 16))] ++ rest) = .ok (c.toNat, rest) := by
    have hZero : hexValue? Ascii.zero = some 0 := rfl
    have hCode : ((0 * 16 + 0) * 16 + c.toNat / 16) * 16 + c.toNat % 16 = c.toNat := by omega
    simp only [List.cons_append, List.nil_append, fourHex, hZero,
      hexValue?_digitChar (c.toNat / 16) (by omega), hexValue?_digitChar (c.toNat % 16) (by omega), hCode]
  have hNone : escapedByte? (Ascii.ofChar 'u') = none := rfl
  rw [hBytes, List.cons_append, escape, hNone]
  dsimp only
  rw [if_pos rfl, codePoint_of_fourHex hHex (by omega), Char.ofNat_toNat]
  rfl

/-- A printed character either stands for itself or is an escape that is read as the character. -/
theorem escapeChar_cases (c : Char) :
    (escapeChar c = [c] ∧ ∀ b ∈ String.utf8EncodeChar c, isPlain b = true) ∨
    ∃ name, escapeChar c = '\\' :: name ∧
      ∀ rest, escape (ofChars name ++ rest) = .ok (String.utf8EncodeChar c, rest) := by
  fun_cases escapeChar c
  case case8 hControl => exact .inr ⟨_, rfl, escape_control hControl⟩
  case case9 hQuote hBackslash _ _ _ _ _ hControl =>
    exact .inl ⟨rfl, fun b => isPlain_of_mem_utf8EncodeChar hQuote hBackslash (Nat.le_of_not_lt hControl)⟩
  all_goals exact .inr ⟨_, rfl, fun rest => rfl⟩

theorem content_escaped (cs : List Char) {fuel : Nat} (hFuel : cs.length < fuel) (rest : Bytes) :
    content fuel (ofChars (cs.flatMap escapeChar) ++ Ascii.quote :: rest) = .ok (ofChars cs, rest) := by
  induction cs generalizing fuel with
  | nil =>
    cases fuel with
    | zero => cases hFuel
    | succ fuel => exact content_quote fuel rest
  | cons c cs ih =>
    rw [List.flatMap_cons, Bytes.ofChars_append, List.append_assoc, Bytes.ofChars_cons c cs]
    rw [List.length_cons] at hFuel
    rcases escapeChar_cases c with ⟨hSelf, hPlain⟩ | ⟨name, hName, hEscape⟩
    · rw [hSelf, Bytes.ofChars_cons, Bytes.ofChars_nil, List.append_nil]
      exact content_append hPlain (ih (Nat.lt_of_succ_lt hFuel))
    · cases fuel with
      | zero => cases hFuel
      | succ fuel =>
        rw [hName, Bytes.ofChars_cons_of_lt (by decide), List.cons_append]
        exact content_escape (hEscape _) (ih (Nat.lt_of_succ_lt_succ hFuel))

theorem length_le_length_escaped (cs : List Char) :
    cs.length ≤ (ofChars (cs.flatMap escapeChar)).length := by
  refine Nat.le_trans ?_ (Bytes.length_le_length_ofChars _)
  induction cs with
  | nil => exact Nat.le_refl 0
  | cons c cs ih =>
    have hPiece : 0 < (escapeChar c).length := by
      rcases escapeChar_cases c with ⟨hSelf, -⟩ | ⟨name, hName, -⟩
      · rw [hSelf]
        exact Nat.one_pos
      · rw [hName]
        exact Nat.succ_pos _
    rw [List.flatMap_cons, List.length_append, List.length_cons]
    omega

theorem string_append (s : String) (rest : Bytes) :
    string (ofChars (s.toList.flatMap escapeChar) ++ Ascii.quote :: rest) = .ok (s, rest) := by
  have hFuel : s.toList.length <
      (ofChars (s.toList.flatMap escapeChar) ++ Ascii.quote :: rest).length + 1 := by
    have hLength := length_le_length_escaped s.toList
    rw [List.length_append]
    omega
  refine bind_eq_ok_iff.mpr ⟨_, content_escaped s.toList hFuel rest, ?_⟩
  dsimp only
  rw [← Bytes.ofString_eq, Bytes.toString?_ofString]

end Scan

end CircuitForm.Json
