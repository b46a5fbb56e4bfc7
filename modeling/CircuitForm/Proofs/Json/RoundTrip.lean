import CircuitForm.Json.Decoder
import CircuitForm.Proofs.Json.Row
import CircuitForm.Proofs.Json.Value

/-!
# Values read back

A printed value is read back as it was, in either form of printing, if it does not nest deeper
than the reader goes. Read as data it must be plain; read verbatim it may be any.
-/

namespace CircuitForm.Json

open Bytes (ofChars)

variable {keep : Keeping} {depth : Nat} {rest : Bytes}

theorem value_append {pad : Bytes} (hPad : Blank pad) (text : Bytes) :
    value keep depth (pad ++ text) = value keep depth text := by
  cases depth <;> rw [value, valueWith, valueWith, skipBlank_append hPad]

/-- The text of a scalar starts with a byte that neither is blank nor opens or closes a list or
an object. -/
def Plainly (text : Bytes) : Prop :=
  ∃ b rest, text = b :: rest ∧ Scan.isBlank b = false ∧ b ≠ Ascii.openBracket ∧
    b ≠ Ascii.openBrace ∧ b ≠ Ascii.closeBracket

/-- The text of a number starts with a sign or a digit. -/
def StartsNumber (b : UInt8) : Prop :=
  b = Ascii.minus ∨ ∃ d : Digit, b = Ascii.ofChar d.char

@[elab_as_elim]
theorem StartsNumber.induct {motive : UInt8 → Prop} {b : UInt8} (h : StartsNumber b)
    (minus : motive Ascii.minus) (digit : ∀ d : Digit, motive (Ascii.ofChar d.char)) : motive b := by
  obtain rfl | ⟨d, rfl⟩ := h
  · exact minus
  · exact digit d

theorem StartsNumber.isScanned {b : UInt8} (h : StartsNumber b) : (b = Ascii.minus || Scan.isDigit b) = true :=
  h.induct (by decide) (by decide)

theorem exists_first_of_text (t : NumberText) : ∃ b rest, ofChars t.chars = b :: rest ∧ StartsNumber b := by
  rw [NumberText.chars, Digits.chars, Digits.toList, List.map_cons]
  cases t.negative with
  | true => exact ⟨_, _, rfl, .inl rfl⟩
  | false =>
    rw [if_neg Bool.false_ne_true, List.nil_append, List.cons_append, List.cons_append,
      Scan.ofChars_cons_digit]
    exact ⟨_, _, rfl, .inr ⟨_, rfl⟩⟩

theorem plainly_text (t : NumberText) : Plainly (ofChars t.chars) := by
  obtain ⟨b, more, hText, hFirst⟩ := exists_first_of_text t
  exact ⟨b, more, hText, hFirst.induct (by decide) (by decide)⟩

theorem scalar_text (t : NumberText) (hRest : Delimited rest) :
    scalar (ofChars t.chars ++ rest) = .ok (.number t.numeral, rest) := by
  obtain ⟨b, more, hText, hFirst⟩ := exists_first_of_text t
  have hRead := Scan.numeral_text_append (.endIn .value) t hRest
  have hNoWord : b ≠ Ascii.ofChar 'n' ∧ b ≠ Ascii.ofChar 't' ∧ b ≠ Ascii.ofChar 'f' :=
    hFirst.induct (by decide) (by decide)
  rw [hText, List.cons_append] at hRead ⊢
  rw [scalar, if_neg hNoWord.1, if_neg hNoWord.2.1, if_neg hNoWord.2.2, if_pos hFirst.isScanned, hRead]
  rfl

theorem scalar_number (n : Numeral) (hRest : Delimited rest) :
    scalar (ofChars n.chars ++ rest) = .ok (.number n, rest) := by
  have hText := scalar_text (.ofNumeral n) hRest
  rwa [NumberText.chars_ofNumeral, NumberText.numeral_ofNumeral] at hText

theorem scalar_string (s : String) (rest : Bytes) :
    scalar (ofChars (stringChars s) ++ rest) = .ok (.string s, rest) := by
  rw [stringChars_eq, List.cons_append, List.append_assoc, List.singleton_append, scalar,
    if_neg (by decide), if_neg (by decide), if_neg (by decide), if_neg (by decide), if_pos rfl,
    Scan.string_append]
  rfl

theorem value_of_scalar {text : Bytes} {json : Json} (hText : Plainly text)
    (h : scalar (text ++ rest) = .ok (json, rest)) : value keep depth (text ++ rest) = .ok (json, rest) := by
  obtain ⟨b, more, rfl, hBlank, hBracket, hBrace, -⟩ := hText
  have hWith : ∀ nested, valueWith keep nested (b :: more ++ rest) = scalar (b :: more ++ rest) := by
    intro nested
    rw [List.cons_append, valueWith, skipBlank_cons hBlank]
    dsimp only
    rw [if_neg hBracket, if_neg hBrace]
  cases depth <;> rw [value, hWith, h]

/-- Kept one by one, the members are as they were; as data only if no name comes again. -/
theorem Keeping.foldl_add {front entries : Entries Json}
    (hDistinct : keep = .data → Entries.Distinct (front ++ entries)) :
    entries.foldl (fun entries entry => keep.add entries entry.1 entry.2) front = front ++ entries := by
  cases keep with
  | data => exact Entries.foldl_insert (hDistinct rfl)
  | verbatim =>
    induction entries generalizing front with
    | nil => exact (List.append_nil front).symm
    | cons entry entries ih => rw [List.foldl_cons, ih nofun, add, List.append_assoc, List.singleton_append]

section Brackets

variable {text : Json → Bytes} {pad gap close : Bytes}

theorem endList_append (rest : Bytes) : endList (Ascii.closeBracket :: rest) = .ok rest := rfl

theorem endObject_append (rest : Bytes) : endObject (Ascii.closeBrace :: rest) = .ok rest := rfl

theorem value_array (hPad : Blank pad) (hClose : Blank close) {items : List Json}
    (hOpens : ∀ item ∈ items, Opens (text item))
    (hItems : ∀ item ∈ items, ∀ rest, Delimited rest →
      value keep depth (text item ++ rest) = .ok (item, rest)) (rest : Bytes) :
    value keep (depth + 1)
        (Ascii.openBracket :: (row pad text items ++ (close ++ Ascii.closeBracket :: rest))) =
      .ok (.array items, rest) := by
  have hFuel := length_lt_length_row pad text items close rest Ascii.closeBracket
  have hRow := elements_row hPad hClose hOpens hItems hFuel rest
  rw [value, valueWith, skipBlank_cons (by decide)]
  dsimp only
  rw [if_pos rfl]
  exact closing_eq_ok_iff.mpr ⟨_, map_eq_ok_iff.mpr ⟨_, hRow, rfl⟩, endList_append rest⟩

theorem member_append (hGap : Blank gap) {item : Json}
    (hItem : ∀ rest, Delimited rest → value keep depth (text item ++ rest) = .ok (item, rest))
    (name : String) (entries : Entries Json) (hRest : Delimited rest) :
    member keep (value keep depth) entries name (behindColon gap text item ++ rest) =
      .ok (keep.add entries name item, rest) := by
  have hValue := (value_append hGap (text item ++ rest)).trans (hItem rest hRest)
  refine bind_eq_ok_iff.mpr ⟨_, colon_behindColon gap text item rest, ?_⟩
  exact bind_eq_ok_iff.mpr ⟨_, within_eq_ok_iff.mpr hValue, rfl⟩

theorem objectBody_row (hPad : Blank pad) (hGap : Blank gap) (hClose : Blank close)
    {members : Entries Json} (hDistinct : keep = .data → members.Distinct)
    (hFirst : keep = .data → members.names.head? ≠ some reservedKey)
    (hItems : ∀ member ∈ members, ∀ rest, Delimited rest →
      value keep depth (text member.2 ++ rest) = .ok (member.2, rest)) (rest : Bytes) :
    objectBody keep (value keep depth)
        (row pad (memberText (behindColon gap text)) members ++ (close ++ Ascii.closeBrace :: rest)) =
      .ok (.object members, Ascii.closeBrace :: rest) := by
  cases members with
  | nil => exact bind_eq_ok_iff.mpr ⟨_, within_eq_ok_iff.mpr (nextKey_close _ hClose rest), rfl⟩
  | cons first more =>
    obtain ⟨name, item⟩ := first
    rw [List.forall_mem_cons] at hItems
    have hPlain : ¬ (keep = .data ∧ name = reservedKey) := by
      rintro ⟨hData, rfl⟩
      exact hFirst hData rfl
    have hRest := delimited_rowTail pad (memberText (behindColon gap text)) more hClose
      (.inr (.inr (.inr rfl))) rest
    have hMember := member_append hGap hItems.1 name [] hRest
    have hAdd : keep.add [] name item = [(name, item)] := by cases keep <;> rfl
    have hFuel : more.length < (rowTail pad (memberText (behindColon gap text)) more ++
        (close ++ Ascii.closeBrace :: rest)).length + 1 := by
      have hTail := length_le_length_rowTail pad (memberText (behindColon gap text)) more
      rw [List.length_append]
      omega
    have hMore := members_rowTail keep.add hPad hClose (fun entry hEntry entries _ =>
      member_append hGap (hItems.2 entry hEntry) entry.1 entries) hFuel [(name, item)] rest
    rw [Keeping.foldl_add hDistinct] at hMore
    rw [row, memberText, List.append_assoc, List.append_assoc, List.append_assoc]
    refine bind_eq_ok_iff.mpr ⟨_, within_eq_ok_iff.mpr (nextKey_first hPad name _), ?_⟩
    dsimp only
    rw [if_neg hPlain]
    refine bind_eq_ok_iff.mpr ⟨_, hMember, ?_⟩
    rw [hAdd]
    exact bind_eq_ok_iff.mpr ⟨_, hMore, rfl⟩

theorem value_object (hPad : Blank pad) (hGap : Blank gap) (hClose : Blank close)
    {members : Entries Json} (hDistinct : keep = .data → members.Distinct)
    (hFirst : keep = .data → members.names.head? ≠ some reservedKey)
    (hItems : ∀ member ∈ members, ∀ rest, Delimited rest →
      value keep depth (text member.2 ++ rest) = .ok (member.2, rest)) (rest : Bytes) :
    value keep (depth + 1) (Ascii.openBrace ::
        (row pad (memberText (behindColon gap text)) members ++ (close ++ Ascii.closeBrace :: rest))) =
      .ok (.object members, rest) := by
  have hBody := objectBody_row hPad hGap hClose hDistinct hFirst hItems rest
  rw [value, valueWith, skipBlank_cons (by decide)]
  dsimp only
  rw [if_neg (by decide), if_pos rfl]
  exact closing_eq_ok_iff.mpr ⟨_, hBody, endObject_append rest⟩

/-- Entries with names of their own are put one behind the other, as they are in the text. -/
theorem Decoder.map_row {α : Type} {item : Decoder α} (text : α → Bytes) (hPad : Blank pad)
    (hClose : Blank close) {entries : Entries α} (hDistinct : entries.Distinct)
    (hItem : ∀ entry ∈ entries, ∀ rest, Delimited rest →
      item depth (gap ++ (text entry.2 ++ rest)) = .ok (entry.2, rest)) (rest : Bytes) :
    Decoder.map item (depth + 1) (Ascii.openBrace ::
        (row pad (memberText (behindColon gap text)) entries ++ (close ++ Ascii.closeBrace :: rest))) =
      .ok (entries, rest) := by
  have hStep : ∀ entry ∈ entries, ∀ (state : Entries α) rest, Delimited rest →
      Decoder.entry (item depth) state entry.1 (behindColon gap text entry.2 ++ rest) =
        .ok (state.insert entry.1 entry.2, rest) := by
    intro entry hEntry state rest hRest
    refine bind_eq_ok_iff.mpr ⟨_, colon_behindColon gap text entry.2 rest, ?_⟩
    exact bind_eq_ok_iff.mpr ⟨_, within_eq_ok_iff.mpr (hItem entry hEntry rest hRest), rfl⟩
  have hFuel := length_lt_length_row pad (memberText (behindColon gap text)) entries close rest
    Ascii.closeBrace
  have hRow := members_row (fun (state : Entries α) name value => state.insert name value) hPad hClose
    hStep hFuel [] rest
  rw [Entries.foldl_insert (by simpa using hDistinct)] at hRow
  rw [Decoder.map, skipBlank_cons (by decide)]
  dsimp only
  rw [if_pos rfl]
  exact closing_eq_ok_iff.mpr ⟨_, hRow, endObject_append rest⟩

end Brackets

theorem plainly_scalar {json : Json} (hScalar : json.depth = 0) : Plainly (ofChars json.compactChars) := by
  cases json with
  | null => exact ⟨_, _, rfl, by decide⟩
  | bool b => cases b <;> exact ⟨_, _, rfl, by decide⟩
  | number n =>
    rw [compactChars, ← NumberText.chars_ofNumeral]
    exact plainly_text (.ofNumeral n)
  | string s => exact ⟨_, _, stringChars_eq s, by decide⟩
  | array _ | object _ => cases hScalar

theorem value_scalar {json : Json} (hScalar : json.depth = 0) (hRest : Delimited rest) :
    value keep depth (ofChars json.compactChars ++ rest) = .ok (json, rest) := by
  refine value_of_scalar (plainly_scalar hScalar) ?_
  cases json with
  | null => rfl
  | bool b => cases b <;> rfl
  | number n => exact scalar_number n hRest
  | string s => exact scalar_string s rest
  | array _ | object _ => cases hScalar

theorem Plainly.opens {text : Bytes} (h : Plainly text) : Opens text := by
  obtain ⟨b, rest, hText, hBlank, -, -, hClose⟩ := h
  exact ⟨b, rest, hText, hBlank, hClose⟩

/-- A way of printing values at a level of indentation. Only the blanks are its own: those at the
start of a line, behind a colon and before a closing bracket. -/
structure Form where
  text : (level : Nat) → Json → Bytes
  line : (level : Nat) → Bytes
  gap : Bytes
  blank_line : ∀ level, Blank (line level)
  blank_gap : Blank gap
  text_scalar : ∀ level json, json.depth = 0 → text level json = ofChars json.compactChars
  text_array : ∀ level items, ∃ close, Blank close ∧ text level (.array items) =
    Ascii.openBracket :: (row (line (level + 1)) (text (level + 1)) items ++
      (close ++ [Ascii.closeBracket]))
  text_object : ∀ level members, ∃ close, Blank close ∧ text level (.object members) =
    Ascii.openBrace :: (row (line (level + 1)) (memberText (behindColon gap (text (level + 1)))) members ++
      (close ++ [Ascii.closeBrace]))

namespace Form

variable (form : Form) (level : Nat)

theorem opens_text (json : Json) : Opens (form.text level json) := by
  cases json with
  | null | bool _ | number _ | string _ =>
    rw [form.text_scalar level _ rfl]
    exact (plainly_scalar rfl).opens
  | array items =>
    obtain ⟨close, -, hText⟩ := form.text_array level items
    exact ⟨_, _, hText, by decide⟩
  | object members =>
    obtain ⟨close, -, hText⟩ := form.text_object level members
    exact ⟨_, _, hText, by decide⟩

/-- A printed value is read back as the value, whatever is behind it. -/
theorem value_text {json : Json} (hDepth : json.depth ≤ depth) (hPlain : keep = .data → json.Plain)
    (hRest : Delimited rest) : value keep depth (form.text level json ++ rest) = .ok (json, rest) := by
  induction json generalizing depth level rest with
  | null | bool _ | number _ | string _ =>
    rw [form.text_scalar level _ rfl]
    exact value_scalar rfl hRest
  | array items ih =>
    cases depth with
    | zero => cases hDepth
    | succ depth =>
      have hItems : ∀ item ∈ items, ∀ rest, Delimited rest →
          value keep depth (form.text (level + 1) item ++ rest) = .ok (item, rest) := by
        intro item hItem rest hRest
        exact ih item hItem (level + 1) (depth_array_le_iff.mp hDepth item hItem)
          (fun hData => plain_array_iff.mp (hPlain hData) item hItem) hRest
      obtain ⟨close, hClose, hText⟩ := form.text_array level items
      have hRead := value_array (form.blank_line (level + 1)) hClose
        (fun item _ => form.opens_text (level + 1) item) hItems rest
      rw [hText, List.cons_append, List.append_assoc, List.append_assoc]
      exact hRead
  | object members ih =>
    cases depth with
    | zero => cases hDepth
    | succ depth =>
      have hItems : ∀ member ∈ members, ∀ rest, Delimited rest →
          value keep depth (form.text (level + 1) member.2 ++ rest) = .ok (member.2, rest) := by
        intro member hMember rest hRest
        exact ih member hMember (level + 1) (depth_object_le_iff.mp hDepth member hMember)
          (fun hData => (plain_object_iff.mp (hPlain hData)).2.2 member hMember) hRest
      obtain ⟨close, hClose, hText⟩ := form.text_object level members
      have hRead := value_object (form.blank_line (level + 1)) form.blank_gap hClose
        (fun hData => (plain_object_iff.mp (hPlain hData)).1)
        (fun hData => (plain_object_iff.mp (hPlain hData)).2.1) hItems rest
      rw [hText, List.cons_append, List.append_assoc, List.append_assoc]
      exact hRead

/-- Blanks behind the text do not matter. -/
theorem ofText_append {json : Json} (hDepth : json.depth ≤ depthLimit) (hPlain : json.Plain) (hRest : Blank rest) :
    ofText (form.text level json ++ rest) = .ok json := by
  have hRead : value .data depthLimit (form.text level json ++ rest) = .ok (json, rest) :=
    form.value_text level hDepth (fun _ => hPlain) hRest.delimited
  exact bind_eq_ok_iff.mpr ⟨_, hRead, bind_eq_ok_iff.mpr ⟨(), atEnd_eq_ok_iff.mpr hRest, rfl⟩⟩

theorem ofText_text {json : Json} (hDepth : json.depth ≤ depthLimit) (hPlain : json.Plain) :
    ofText (form.text level json) = .ok json := by
  have hNone : Blank [] := nofun
  have hRead := form.ofText_append level hDepth hPlain hNone
  rwa [List.append_nil] at hRead

end Form

end CircuitForm.Json
