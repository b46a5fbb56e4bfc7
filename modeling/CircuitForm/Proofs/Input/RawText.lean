import CircuitForm.Proofs.Input.Text
import CircuitForm.Proofs.Input.TruthValue

/-!
# Trees typed as texts

A user may type a tree in place of giving it as a value. The text is decoded by the rule of the
type, verbatim, as a word or as a document, and each rule gives back what the tree stands for.
-/

namespace CircuitForm

theorem not_isBlank_of_mem_text {t : NumberText} {c : Char} (h : c ∈ t.chars) : Text.isBlank c = false := by
  have hDigits : ∀ (ds : Digits), ∀ c ∈ ds.chars, Text.isBlank c = false := by
    have hDigit : ∀ d : Digit, Text.isBlank d.char = false := by decide
    intro ds c hChar
    obtain ⟨d, -, rfl⟩ := List.mem_map.mp hChar
    exact hDigit d
  obtain ⟨negative, whole, fraction, exponent⟩ := t
  rw [NumberText.chars, List.mem_append, List.mem_append, List.mem_append] at h
  obtain ((hSign | hWhole) | hFraction) | hExponent := h
  · cases negative with
    | false => cases hSign
    | true =>
      cases List.mem_singleton.mp hSign
      decide
  · exact hDigits _ c hWhole
  · cases fraction with
    | none => cases hFraction
    | some ds =>
      obtain rfl | hChar := List.mem_cons.mp hFraction
      · decide
      · exact hDigits ds c hChar
  · cases exponent with
    | none => cases hExponent
    | some e =>
      obtain ⟨capital, sign, digits⟩ := e
      obtain rfl | hBehind := List.mem_cons.mp hExponent
      · cases capital <;> rfl
      · obtain hSign | hChar := List.mem_append.mp hBehind
        · cases sign with
          | absent => cases hSign
          | plus | minus =>
            cases List.mem_singleton.mp hSign
            decide
        · exact hDigits _ c hChar

theorem not_isBlank_of_mem_chars {n : Numeral} {c : Char} (h : c ∈ n.chars) : Text.isBlank c = false := by
  rw [← NumberText.chars_ofNumeral] at h
  exact not_isBlank_of_mem_text h

theorem trimList_enclosed {first last : Char} (hFirst : Text.isBlank first = false)
    (hLast : Text.isBlank last = false) (inside : List Char) :
    Text.trimList (first :: inside ++ [last]) = first :: inside ++ [last] := by
  refine Text.trimList_eq_self ?_ ?_
  · intro c hChar
    cases hChar
    exact hFirst
  · intro c hChar
    rw [List.getLast?_concat] at hChar
    cases hChar
    exact hLast

theorem trim_compact (json : Json) : Text.trim json.compact = json.compact := by
  have hChars : Text.trimList json.compactChars = json.compactChars := by
    cases json with
    | null => decide
    | bool b => cases b <;> decide
    | number n =>
      refine Text.trimList_eq_self ?_ ?_
      · exact fun c h => not_isBlank_of_mem_chars (List.mem_of_mem_head? h)
      · exact fun c h => not_isBlank_of_mem_chars (List.mem_of_mem_getLast? h)
    | string s => exact trimList_enclosed (by decide) (by decide) _
    | array items => exact trimList_enclosed (by decide) (by decide) _
    | object members => exact trimList_enclosed (by decide) (by decide) _
  rw [Text.trim, Json.compact, String.toList_ofList, hChars]

theorem decode_compact {type : Descriptor} (hString : ∀ length, type ≠ .string length)
    (hBoolean : type ≠ .boolean) {tree : InputTree} (hDepth : tree.toJson.depth ≤ Json.depthLimit)
    (hPlain : tree.toJson.Plain) : Literal.decode type tree.toJson.compact = .ok (.ofTree tree) := by
  have hRead : Json.ofText (Bytes.ofString (Text.trim tree.toJson.compact)) = .ok tree.toJson := by
    rw [trim_compact, Json.ofString_compact]
    exact Json.compactForm.ofText_text 0 hDepth hPlain
  have hLiteral : Literal.ofJson tree.toJson = .ok (.ofTree tree) := Literal.ofJsonAt_toJson tree []
  cases type with
  | string length => exact absurd rfl (hString length)
  | boolean => exact absurd rfl hBoolean
  | field | integer _ _ | array _ _ | tuple _ | struct _ _ =>
    rw [Literal.decode]
    · simp only [hRead, hLiteral]
    all_goals nofun

theorem booleanOfText?_rawText {tree : InputTree} {b : Bool} (h : booleanOf? (.ofTree tree) = some b) :
    Literal.booleanOfText? tree.rawText = some b := by
  cases tree with
  | number n =>
    have hSpelled : SpellsBoolean (.number n) b := booleanOf?_eq_some_iff.mp h
    have hText : (InputTree.number n).rawText = String.ofList n.chars := rfl
    rw [hText]
    cases hSpelled with
    | zero hZero =>
      rw [hZero]
      decide
    | one hOne =>
      rw [hOne]
      decide
  | boolean c =>
    cases h
    cases b <;> decide
  | string s => exact h
  | list _ | struct _ => cases h

theorem not_string_of_coerces {type : Descriptor} {s : String} {accepted : InputTree}
    (h : Coerces type (.string s) accepted) : type = .boolean ∨ ∃ length, type = .string length := by
  obtain ⟨path, errors, hCoerce⟩ := h
  cases type with
  | boolean => exact .inl rfl
  | string length => exact .inr ⟨length, rfl⟩
  | field | integer _ _ | array _ _ | tuple _ | struct _ _ => simp [coerce, scalarOf] at hCoerce

theorem rawText_of_not_string {tree : InputTree} (h : ∀ s, tree ≠ .string s) :
    tree.rawText = tree.toJson.compact := by
  cases tree with
  | string s => exact absurd rfl (h s)
  | number _ | boolean _ | list _ | struct _ => rfl

/-- A text is decoded to something that is accepted as the tree is. -/
theorem exists_decode_rawText {type : Descriptor} (hNames : type.DistinctNames)
    (hUnreserved : type.Unreserved) (hDepth : type.depth ≤ Json.depthLimit)
    {tree accepted : InputTree} (hDistinct : tree.DistinctNames)
    (h : typecheck type (.ofTree tree) = .ok accepted) :
    ∃ literal, Literal.decode type tree.rawText = .ok literal ∧ typecheck type literal = .ok accepted := by
  have hCoerces := coerces_of_typecheck h
  by_cases hString : ∃ length, type = .string length
  · obtain ⟨length, rfl⟩ := hString
    have hScalar := scalarOf_of_coerces rfl hCoerces
    cases tree with
    | string s => exact ⟨_, rfl, h⟩
    | number _ | boolean _ | list _ | struct _ => cases hScalar
  · by_cases hBoolean : type = .boolean
    · subst hBoolean
      have hScalar := scalarOf_of_coerces rfl hCoerces
      rw [scalarOf] at hScalar
      split at hScalar
      · rename_i b hWord
        cases hScalar
        refine ⟨.boolean b, ?_, rfl⟩
        rw [Literal.decode, booleanOfText?_rawText hWord]
      · cases hScalar
    · have hTree : ∀ s, tree ≠ .string s := by
        rintro s rfl
        exact (not_string_of_coerces hCoerces).elim hBoolean hString
      obtain ⟨hTreeDepth, hPlain⟩ := plain_toJson_of_coerces hNames hUnreserved hDistinct hCoerces
      refine ⟨.ofTree tree, ?_, h⟩
      rw [rawText_of_not_string hTree]
      exact decode_compact (fun length hType => hString ⟨length, hType⟩) hBoolean
        (Nat.le_trans hTreeDepth hDepth) hPlain

theorem check_rawText {type : Descriptor} (hNames : type.DistinctNames)
    (hUnreserved : type.Unreserved) (hDepth : type.depth ≤ Json.depthLimit)
    {tree accepted : InputTree} (hDistinct : tree.DistinctNames)
    (h : typecheck type (.ofTree tree) = .ok accepted) : check type tree.rawText = .ok accepted := by
  obtain ⟨literal, hDecode, hAccepted⟩ := exists_decode_rawText hNames hUnreserved hDepth hDistinct h
  rw [check, firstError_eq_ok_iff, checkAll, hDecode]
  exact hAccepted

theorem InputTree.Fits.distinctNames {tree : InputTree} {type : Descriptor} (hNames : type.DistinctNames)
    (h : tree.Fits type) : tree.DistinctNames := by
  intro path fields hFields
  have hNode := h.at?_rel path
  rw [hFields] at hNode
  generalize hType : type.at? path = declared at hNode
  cases hNode with
  | @some _ declared hFits =>
    have hDeclared := hNames.at? hType
    cases declared with
    | struct name types =>
      have hAligned := InputTree.fits_struct_iff.mp hFits
      rw [Entries.Distinct, hAligned.names_eq]
      exact (Descriptor.distinctNames_struct_iff.mp hDeclared).1
    | field | boolean | string _ | integer _ _ | array _ _ | tuple _ => simp [InputTree.Fits] at hFits

theorem check_rawText_of_fits {type : Descriptor} (hNames : type.DistinctNames)
    (hUnreserved : type.Unreserved) (hDepth : type.depth ≤ Json.depthLimit) {tree : InputTree}
    (h : tree.Fits type) : check type tree.rawText = .ok tree :=
  check_rawText hNames hUnreserved hDepth (h.distinctNames hNames) ((fits_iff_typecheck hNames).mp h)

end CircuitForm
