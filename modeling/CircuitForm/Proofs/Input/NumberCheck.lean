import CircuitForm.Proofs.Input.RawText
import CircuitForm.Proofs.Json.NumberReading
import CircuitForm.Proofs.Json.NumberValue

/-!
# Numbers typed

What a user types where a number is declared is accepted when it is a spelling of a number, or an
object that holds one under the reserved key. For unsigned integers the value that the text stands
for must not be below zero; nothing else about the number matters. It is kept as it was spelled, but
for the mark of the exponent, and is accepted as the same number when its text is typed again.
-/

namespace CircuitForm

open Bytes (ofChars)

theorem Json.Scan.not_isBlank_of_mem {c : Char} {b : UInt8} (hChar : Text.isBlank c = false)
    (hByte : b ∈ String.utf8EncodeChar c) : isBlank b = false := by
  by_cases hAscii : c.toNat < 128
  · have hAll : ∀ n < 128, Text.isBlank (Char.ofNat n) = false → isBlank (Ascii.ofChar (Char.ofNat n)) = false := by
      decide
    have hBlank := hAll c.toNat hAscii
    rw [Char.ofNat_toNat] at hBlank
    rw [Bytes.utf8EncodeChar_of_lt hAscii, List.mem_singleton] at hByte
    rw [hByte]
    exact hBlank hChar
  · have hHigh := Bytes.le_of_mem_utf8EncodeChar (Nat.le_of_not_lt hAscii) hByte
    have hNot : ∀ low : UInt8, low.toNat < 128 → b ≠ low := by
      rintro low hLow rfl
      omega
    simpa [isBlank] using ⟨⟨⟨hNot _ (by decide), hNot _ (by decide)⟩, hNot _ (by decide)⟩, hNot _ (by decide)⟩

/-- A text without blanks at the ends has none of the blanks of JSON there either. -/
theorem Text.Trimmed.ofChars_eq_iff {cs body core : List Char} (h : Trimmed cs body) :
    (∃ rest, Json.Scan.skipBlank (ofChars body) = ofChars core ++ rest ∧ Json.Blank rest) ↔ body = core := by
  obtain ⟨-, -, -, -, -, hFirst, hLast⟩ := h
  have hSkip : Json.Scan.skipBlank (ofChars body) = ofChars body := by
    cases body with
    | nil => rfl
    | cons c body =>
      obtain ⟨b, more, hBytes⟩ := List.exists_cons_of_ne_nil (String.utf8EncodeChar_ne_nil (c := c))
      rw [Bytes.ofChars_cons, hBytes, List.cons_append]
      exact Json.skipBlank_cons (Json.Scan.not_isBlank_of_mem (hFirst c rfl) (hBytes ▸ List.mem_cons_self)) _
  rw [hSkip]
  constructor
  · rintro ⟨rest, hText, hRest⟩
    rcases List.eq_nil_or_concat rest with rfl | ⟨front, b, rfl⟩
    · rw [List.append_nil] at hText
      exact Bytes.ofChars_inj.mp hText
    · rcases List.eq_nil_or_concat body with rfl | ⟨before, c, rfl⟩
      · simp at hText
      · obtain ⟨bytes, last, hBytes, hByte⟩ := Bytes.exists_ofChars_concat before c
        rw [List.concat_eq_append, hBytes, List.concat_eq_append, ← List.append_assoc] at hText
        cases (List.append_inj' hText rfl).2
        have hBlank := hRest b (by simp)
        rw [Json.Scan.not_isBlank_of_mem (hLast c (by simp)) hByte] at hBlank
        cases hBlank
  · rintro rfl
    exact ⟨[], (List.append_nil _).symm, List.forall_mem_nil _⟩

/-- But for the blanks around it, what is typed is a spelling of the number or an object that holds
one under the reserved key. -/
def Enters (raw : String) (t : NumberText) : Prop :=
  ∃ body, Text.Trimmed raw.toList body ∧
    (body = t.chars ∨ Json.Writes (ofChars body) (Json.boxed t))

variable {raw : String} {t : NumberText} {type : Descriptor}

theorem ofText_trim_eq_number_iff {n : Numeral} :
    Json.ofText (Bytes.ofString (Text.trim raw)) = .ok (.number n) ↔ ∃ t, Enters raw t ∧ t.numeral = n := by
  have hTrimmed := Text.trimmed_trimList raw.toList
  rw [Text.trim, Bytes.ofString_ofList, Json.ofText_eq_number_iff]
  refine exists_congr fun t => and_congr_left' ?_
  rw [hTrimmed.ofChars_eq_iff]
  constructor
  · exact fun h => ⟨_, hTrimmed, h⟩
  · rintro ⟨body, hBody, h⟩
    rwa [hBody.trimList_eq]

/-- Blanks around a spelling do not matter. -/
theorem enters_padded {front back : List Char} (hFront : ∀ c ∈ front, Text.isBlank c = true)
    (hBack : ∀ c ∈ back, Text.isBlank c = true) (h : raw.toList = front ++ (t.chars ++ back)) : Enters raw t := by
  refine ⟨t.chars, ⟨front, back, h, hFront, hBack, ?_, ?_⟩, .inl rfl⟩
  · exact fun c hChar => not_isBlank_of_mem_text (List.mem_of_mem_head? hChar)
  · exact fun c hChar => not_isBlank_of_mem_text (List.mem_of_mem_getLast? hChar)

theorem enters_text (t : NumberText) : Enters t.text t :=
  @enters_padded _ _ [] [] nofun nofun (by simp [NumberText.text])

theorem enters_compact_boxed (t : NumberText) : Enters (Json.boxed t).compact t := by
  refine ⟨_, Text.trimmed_trimList _, .inr ?_⟩
  have hTrim : Text.trimList (Json.boxed t).compact.toList = (Json.boxed t).compact.toList := by
    have hAll := congrArg String.toList (trim_compact (Json.boxed t))
    rwa [Text.trim, String.toList_ofList] at hAll
  have hDepth : (Json.boxed t).depth ≤ Json.depthLimit :=
    Json.depth_object_le_iff.mpr (List.forall_mem_singleton.mpr (Nat.zero_le 126))
  rw [hTrim, ← Bytes.ofString_eq]
  exact ⟨[], Json.value_compact hDepth, rfl⟩

/-- The types whose values are numbers. -/
def Descriptor.isNumeric : Descriptor → Bool
  | .field | .integer _ _ => true
  | .boolean | .string _ | .array _ _ | .tuple _ | .struct _ _ => false

theorem Descriptor.isScalar_of_isNumeric (h : type.isNumeric = true) : type.isScalar = true := by
  cases type with
  | field | integer _ _ => rfl
  | boolean | string _ | array _ _ | tuple _ | struct _ _ => cases h

theorem decode_of_isNumeric (h : type.isNumeric = true) (raw : String) :
    Literal.decode type raw =
      ((Json.ofText (Bytes.ofString (Text.trim raw))).mapError fun fault => ⟨[], .mismatch type.title
        ("malformed input (" ++ fault.message (Bytes.ofString (Text.trim raw)) ++ ")")⟩) >>= Literal.ofJson := by
  cases type with
  | field | integer _ _ =>
    simp only [Literal.decode]
    cases Json.ofText (Bytes.ofString (Text.trim raw)) <;> rfl
  | boolean | string _ | array _ _ | tuple _ | struct _ _ => cases h

theorem ofJson_eq_number_iff {json : Json} {n : Numeral} :
    Literal.ofJson json = .ok (.number n) ↔ json = .number n := by
  cases json with
  | null | bool _ | string _ => exact iff_of_false nofun nofun
  | number m => rw [Literal.ofJson, Literal.ofJsonAt, Except.ok.injEq, Literal.number.injEq, Json.number.injEq]
  | array items => simp [Literal.ofJson, Literal.ofJsonAt, map_eq_ok_iff]
  | object members => simp [Literal.ofJson, Literal.ofJsonAt, map_eq_ok_iff]

theorem decode_eq_number_iff (h : type.isNumeric = true) {n : Numeral} :
    Literal.decode type raw = .ok (.number n) ↔ ∃ t, Enters raw t ∧ t.numeral = n := by
  rw [decode_of_isNumeric h, ← ofText_trim_eq_number_iff, bind_eq_ok_iff]
  simp only [mapError_eq_ok_iff, ofJson_eq_number_iff, exists_eq_right]

theorem check_scalar (h : type.isScalar = true) (raw : String) :
    check type raw =
      Literal.decode type raw >>= fun literal => (scalarOf type literal).mapError (InputError.mk []) := by
  rw [check, checkAll]
  cases Literal.decode type raw with
  | error _ => rfl
  | ok literal =>
    change firstError (typecheck type literal) = (scalarOf type literal).mapError (InputError.mk [])
    rw [typecheck, coerce_scalar h]
    cases scalarOf type literal <;> rfl

/-- What is refused of a value is a `null` in it. -/
theorem fault_of_ofJsonAt {json : Json} {path : Path} {error : InputError}
    (h : Literal.ofJsonAt path json = .error error) : error.fault = .mismatch "a value" "null" := by
  induction json generalizing path with
  | null =>
    cases h
    rfl
  | bool _ | number _ | string _ => cases h
  | array items ih =>
    rw [Literal.ofJsonAt, map_eq_error_iff] at h
    generalize 0 = index at h
    induction items generalizing index with
    | nil => cases h
    | cons item rest ihRest =>
      rw [List.forall_mem_cons] at ih
      obtain hItem | ⟨_, -, hMore⟩ := bind_eq_error_iff.mp h
      · exact ih.1 hItem
      · obtain hRest | ⟨_, -, hEnd⟩ := bind_eq_error_iff.mp hMore
        · exact ihRest ih.2 _ hRest
        · cases hEnd
  | object members ih =>
    rw [Literal.ofJsonAt, map_eq_error_iff] at h
    induction members with
    | nil => cases h
    | cons member rest ihRest =>
      rw [List.forall_mem_cons] at ih
      obtain hItem | ⟨_, -, hMore⟩ := bind_eq_error_iff.mp h
      · exact ih.1 hItem
      · obtain hRest | ⟨_, -, hEnd⟩ := bind_eq_error_iff.mp hMore
        · exact ihRest ih.2 hRest
        · cases hEnd

theorem exists_mismatch_of_decode (h : type.isNumeric = true) {error : InputError}
    (hDecode : Literal.decode type raw = .error error) :
    ∃ expected found, error.fault = .mismatch expected found := by
  rw [decode_of_isNumeric h] at hDecode
  obtain hText | ⟨json, -, hJson⟩ := bind_eq_error_iff.mp hDecode
  · obtain ⟨fault, -, rfl⟩ := mapError_eq_error_iff.mp hText
    exact ⟨_, _, rfl⟩
  · exact ⟨_, _, fault_of_ofJsonAt hJson⟩

theorem exists_number_of_scalarOf (h : type.isNumeric = true) {literal : Literal} {tree : InputTree}
    (hScalar : scalarOf type literal = .ok tree) : ∃ n, literal = .number n ∧ tree = .number n := by
  revert hScalar
  fun_cases scalarOf type literal
  case case1 n | case3 n _ =>
    rintro ⟨⟩
    exact ⟨n, rfl, rfl⟩
  case case2 | case5 | case7 | case8 => rintro ⟨⟩
  case case4 | case6 => cases h

theorem scalarOf_eq_ok_iff (h : type.isNumeric = true) {literal : Literal} {tree : InputTree} :
    scalarOf type literal = .ok tree ↔
      ∃ n, literal = .number n ∧ (InputTree.number n).Fits type ∧ tree = .number n := by
  constructor
  · intro hScalar
    obtain ⟨n, rfl, rfl⟩ := exists_number_of_scalarOf h hScalar
    exact ⟨n, rfl, fits_of_scalarOf hScalar, rfl⟩
  · rintro ⟨n, rfl, hFits, rfl⟩
    exact scalarOf_ofTree (Descriptor.isScalar_of_isNumeric h) hFits

theorem exists_negative_of_scalarOf {literal : Literal} {n : Numeral}
    (h : scalarOf type literal = .error (.negative n)) : literal = .number n ∧ n.isNegative = true := by
  revert h
  fun_cases scalarOf type literal
  case case2 hSign =>
    rintro ⟨⟩
    exact ⟨rfl, hSign.2⟩
  all_goals rintro ⟨⟩

theorem check_eq_ok_iff (h : type.isNumeric = true) {tree : InputTree} :
    check type raw = .ok tree ↔
      ∃ t, Enters raw t ∧ (InputTree.number t.numeral).Fits type ∧ tree = .number t.numeral := by
  rw [check_scalar (Descriptor.isScalar_of_isNumeric h)]
  simp only [bind_eq_ok_iff, mapError_eq_ok_iff, scalarOf_eq_ok_iff h]
  constructor
  · rintro ⟨_, hDecode, n, rfl, hFits, rfl⟩
    obtain ⟨t, hEnters, rfl⟩ := (decode_eq_number_iff h).mp hDecode
    exact ⟨t, hEnters, hFits, rfl⟩
  · rintro ⟨t, hEnters, hFits, rfl⟩
    exact ⟨_, (decode_eq_number_iff h).mpr ⟨t, hEnters, rfl⟩, _, rfl, hFits, rfl⟩

theorem check_unsigned_eq_negative_iff {width : Nat} {n : Numeral} :
    check (.integer .unsigned width) raw = .error ⟨[], .negative n⟩ ↔
      ∃ t, Enters raw t ∧ t.value < 0 ∧ n = t.numeral := by
  rw [check_scalar rfl]
  constructor
  · intro h
    obtain hDecode | ⟨literal, hDecode, hScalar⟩ := bind_eq_error_iff.mp h
    · obtain ⟨expected, found, hFault⟩ := exists_mismatch_of_decode rfl hDecode
      cases hFault
    · obtain ⟨fault, hFault, hSame⟩ := mapError_eq_error_iff.mp hScalar
      cases hSame
      obtain ⟨rfl, hNegative⟩ := exists_negative_of_scalarOf hFault
      obtain ⟨t, hEnters, rfl⟩ := (decode_eq_number_iff rfl).mp hDecode
      exact ⟨t, hEnters, NumberText.isNegative_iff_value_neg.mp hNegative, rfl⟩
  · rintro ⟨t, hEnters, hNegative, rfl⟩
    rw [(decode_eq_number_iff rfl).mpr ⟨t, hEnters, rfl⟩, ok_bind, scalarOf,
      if_pos ⟨rfl, NumberText.isNegative_iff_value_neg.mpr hNegative⟩]
    rfl

theorem Enters.numeral_eq {other : NumberText} (h : Enters raw t) (hOther : Enters raw other) :
    t.numeral = other.numeral := by
  have hRead := ofText_trim_eq_number_iff.mpr ⟨t, h, rfl⟩
  rw [ofText_trim_eq_number_iff.mpr ⟨other, hOther, rfl⟩] at hRead
  exact (Json.number.inj (Except.ok.inj hRead)).symm

theorem rawText_number (t : NumberText) : (InputTree.number t.numeral).rawText = t.normal.text :=
  t.text_numeral

/-- Numeric leaves take the numbers of the right sign, with all their digits. -/
theorem numericLeaf_exact (raw : String) (width : Nat) :
    (∀ type ∈ [.field, .integer .signed width], ∀ tree,
      check type raw = .ok tree ↔ ∃ t, Enters raw t ∧ tree = .number t.numeral) ∧
    (∀ tree, check (.integer .unsigned width) raw = .ok tree ↔
      ∃ t, Enters raw t ∧ 0 ≤ t.value ∧ tree = .number t.numeral) ∧
    (∀ n, check (.integer .unsigned width) raw = .error ⟨[], .negative n⟩ ↔
      ∃ t, Enters raw t ∧ t.value < 0 ∧ n = t.numeral) ∧
    ∀ t, Enters raw t → ∀ type ∈ [.field, .integer .signed width, .integer .unsigned width], ∀ tree,
      check type raw = .ok tree → tree.rawText = t.normal.text ∧ t.normal.value = t.value ∧
        check type tree.rawText = .ok tree := by
  refine ⟨?_, ?_, fun n => check_unsigned_eq_negative_iff, ?_⟩
  · intro type hType tree
    rw [List.mem_pair] at hType
    obtain rfl | rfl := hType
    all_goals
      rw [check_eq_ok_iff rfl]
      simp [InputTree.Fits]
  · intro tree
    rw [check_eq_ok_iff rfl]
    refine exists_congr fun t => and_congr_right' (and_congr_left' ?_)
    rw [InputTree.Fits, ← not_lt, ← NumberText.isNegative_iff_value_neg, Bool.not_eq_true]
  · intro t hEnters type hType tree hCheck
    have hNumeric : type.isNumeric = true := by
      simp only [List.mem_cons, List.not_mem_nil, or_false] at hType
      obtain rfl | rfl | rfl := hType <;> rfl
    obtain ⟨other, hOther, hFits, rfl⟩ := (check_eq_ok_iff hNumeric).mp hCheck
    rw [← hEnters.numeral_eq hOther] at hFits ⊢
    refine ⟨rawText_number t, t.value_normal, (check_eq_ok_iff hNumeric).mpr ⟨t.normal, ?_, ?_⟩⟩
    · rw [rawText_number]
      exact enters_text t.normal
    · rw [t.numeral_normal]
      exact ⟨hFits, rfl⟩

theorem numericLeaf_exact_signs :
    (∃ n, check .field "\u00a0-2.50E03\t" = .ok (.number n) ∧
      check (.integer .unsigned 8) "\u00a0-2.50E03\t" = .error ⟨[], .negative n⟩ ∧
      (InputTree.number n).rawText = "-2.50e+03" ∧ check .field "-2.50e+03" = .ok (.number n)) ∧
    ∃ n, check (.integer .unsigned 8) "\x7b\"$serde_json::private::Number\":\"-0E1\"\x7d" = .ok (.number n) ∧
      (InputTree.number n).rawText = "-0e+1" := by
  refine ⟨?_, ?_⟩
  · let t : NumberText := ⟨true, ⟨⟨2, []⟩, nofun⟩, some ⟨5, [0]⟩, some ⟨true, .absent, ⟨0, [3]⟩⟩⟩
    have hEnters : Enters "\u00a0-2.50E03\t" t :=
      @enters_padded _ _ ['\u00a0'] ['\t'] (List.forall_mem_singleton.mpr rfl) (List.forall_mem_singleton.mpr rfl)
        (by decide)
    obtain ⟨hOk, -, hNegative, hKept⟩ := numericLeaf_exact "\u00a0-2.50E03\t" 8
    have hCheck := (hOk .field List.mem_cons_self (.number t.numeral)).mpr ⟨t, hEnters, rfl⟩
    have hBelow : t.value < 0 := NumberText.isNegative_iff_value_neg.mp (by decide)
    have hText : (InputTree.number t.numeral).rawText = "-2.50e+03" := by decide
    have hAgain := (hKept t hEnters .field List.mem_cons_self _ hCheck).2.2
    exact ⟨t.numeral, hCheck, (hNegative t.numeral).mpr ⟨t, hEnters, hBelow, rfl⟩, hText, hText ▸ hAgain⟩
  · let t : NumberText := ⟨true, ⟨⟨0, []⟩, fun _ => rfl⟩, none, some ⟨true, .absent, ⟨1, []⟩⟩⟩
    have hCompact : (Json.boxed t).compact = "\x7b\"$serde_json::private::Number\":\"-0E1\"\x7d" := by decide
    have hZero : 0 ≤ t.value := not_lt.mp fun h => absurd (NumberText.isNegative_iff_value_neg.mpr h) (by decide)
    refine ⟨t.numeral, ?_, by decide⟩
    rw [← hCompact]
    exact ((numericLeaf_exact (Json.boxed t).compact 8).2.1 _).mpr ⟨t, enters_compact_boxed t, hZero, rfl⟩

end CircuitForm
