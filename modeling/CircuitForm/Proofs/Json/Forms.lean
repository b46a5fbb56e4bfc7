import CircuitForm.Proofs.Json.RoundTrip

/-!
# The two forms of printing

The compact form has no blanks at all. In the indented form there are blanks at the start of each
line and one behind each colon, and an empty list or object has none in it.
-/

namespace CircuitForm.Json

open Bytes (ofChars)

def compactText (json : Json) : Bytes :=
  ofChars json.compactChars

theorem compactItems_eq_row (items : List Json) :
    ofChars (compactItems items) = row [] compactText items := by
  induction items with
  | nil => rfl
  | cons item rest ih =>
    cases rest with
    | nil => simp [compactItems, row, rowTail, compactText]
    | cons next rest =>
      rw [compactItems, Bytes.ofChars_append, Bytes.ofChars_cons_of_lt (by decide), ih, row, row, rowTail_cons]
      rfl

theorem compactMember_eq (name : String) (item : Json) :
    ofChars (stringChars name ++ ':' :: item.compactChars) =
      memberText (behindColon [] compactText) (name, item) := by
  rw [Bytes.ofChars_append, Bytes.ofChars_cons_of_lt (by decide)]
  rfl

theorem compactMembers_eq_row (members : Entries Json) :
    ofChars (compactMembers members) = row [] (memberText (behindColon [] compactText)) members := by
  induction members with
  | nil => rfl
  | cons member rest ih =>
    obtain ⟨name, item⟩ := member
    cases rest with
    | nil =>
      rw [compactMembers, compactMember_eq, row, rowTail, List.flatMap_nil, List.append_nil]
      rfl
    | cons next rest =>
      rw [compactMembers, Bytes.ofChars_append, compactMember_eq, Bytes.ofChars_cons_of_lt (by decide), ih,
        row, row, rowTail_cons]
      rfl

def compactForm : Form where
  text _ := compactText
  line _ := []
  gap := []
  blank_line _ := nofun
  blank_gap := nofun
  text_scalar _ _ _ := rfl
  text_array _ items := by
    refine ⟨[], nofun, ?_⟩
    rw [compactText, compactChars, List.cons_append, Bytes.ofChars_cons_of_lt (by decide),
      Bytes.ofChars_append, compactItems_eq_row]
    rfl
  text_object _ members := by
    refine ⟨[], nofun, ?_⟩
    rw [compactText, compactChars, List.cons_append, Bytes.ofChars_cons_of_lt (by decide),
      Bytes.ofChars_append, compactMembers_eq_row]
    rfl

def prettyText (level : Nat) (json : Json) : Bytes :=
  ofChars (json.prettyChars level)

def prettyLine (level : Nat) : Bytes :=
  ofChars (lineStart level)

theorem blank_prettyLine (level : Nat) : Blank (prettyLine level) := by
  intro b hByte
  rw [prettyLine, lineStart, Bytes.ofChars_cons_of_lt (by decide), List.mem_cons] at hByte
  rcases hByte with rfl | hSpace
  · rfl
  · obtain ⟨c, hChar, hByte⟩ := List.mem_flatMap.mp hSpace
    rw [List.eq_of_mem_replicate hChar, Bytes.utf8EncodeChar_of_lt (by decide), List.mem_singleton] at hByte
    rw [hByte]
    rfl

theorem prettyItems_eq_row (level : Nat) (items : List Json) :
    ofChars (prettyItems level items) = row (prettyLine level) (prettyText level) items := by
  induction items with
  | nil => rfl
  | cons item rest ih =>
    cases rest with
    | nil => simp [prettyItems, row, rowTail, prettyText, prettyLine]
    | cons next rest =>
      rw [prettyItems, Bytes.ofChars_append, Bytes.ofChars_append, Bytes.ofChars_cons_of_lt (by decide), ih,
        row, row, rowTail_cons, List.append_assoc]
      rfl

theorem prettyMember_eq (level : Nat) (name : String) (item : Json) :
    ofChars (stringChars name ++ ':' :: ' ' :: item.prettyChars level) =
      memberText (behindColon [Ascii.space] (prettyText level)) (name, item) := by
  rw [Bytes.ofChars_append, Bytes.ofChars_cons_of_lt (by decide), Bytes.ofChars_cons_of_lt (by decide)]
  rfl

theorem prettyMembers_eq_row (level : Nat) (members : Entries Json) :
    ofChars (prettyMembers level members) =
      row (prettyLine level) (memberText (behindColon [Ascii.space] (prettyText level))) members := by
  induction members with
  | nil => rfl
  | cons member rest ih =>
    obtain ⟨name, item⟩ := member
    cases rest with
    | nil =>
      rw [prettyMembers, List.append_assoc, Bytes.ofChars_append, prettyMember_eq, row, rowTail,
        List.flatMap_nil, List.append_nil]
      rfl
    | cons next rest =>
      rw [prettyMembers, Bytes.ofChars_append, List.append_assoc, Bytes.ofChars_append, prettyMember_eq,
        Bytes.ofChars_cons_of_lt (by decide), ih, row, row, rowTail_cons, List.append_assoc]
      rfl

def prettyForm : Form where
  text := prettyText
  line := prettyLine
  gap := [Ascii.space]
  blank_line := blank_prettyLine
  blank_gap := by
    intro b hByte
    rw [List.mem_singleton.mp hByte]
    rfl
  text_scalar _ json hScalar := by
    cases json with
    | null | bool _ | number _ | string _ => rfl
    | array _ | object _ => cases hScalar
  text_array level items := by
    cases items with
    | nil => exact ⟨[], nofun, rfl⟩
    | cons item rest =>
      refine ⟨prettyLine level, blank_prettyLine level, ?_⟩
      rw [prettyText, prettyChars, List.append_assoc, List.cons_append, Bytes.ofChars_cons_of_lt (by decide),
        Bytes.ofChars_append, Bytes.ofChars_append, prettyItems_eq_row]
      rfl
  text_object level members := by
    cases members with
    | nil => exact ⟨[], nofun, rfl⟩
    | cons member rest =>
      refine ⟨prettyLine level, blank_prettyLine level, ?_⟩
      rw [prettyText, prettyChars, List.append_assoc, List.cons_append, Bytes.ofChars_cons_of_lt (by decide),
        Bytes.ofChars_append, Bytes.ofChars_append, prettyMembers_eq_row]
      rfl

theorem ofString_compact (json : Json) : Bytes.ofString json.compact = compactForm.text 0 json :=
  Bytes.ofString_ofList json.compactChars

/-- Any value is read back as it stands where objects are kept as they are written. -/
theorem value_compact {json : Json} {depth : Nat} (hDepth : json.depth ≤ depth) :
    value .verbatim depth (Bytes.ofString json.compact) = .ok (json, []) := by
  have hRead : value .verbatim depth (compactForm.text 0 json ++ []) = .ok (json, []) :=
    compactForm.value_text 0 hDepth nofun nofun
  rwa [List.append_nil, ← ofString_compact] at hRead

theorem ofString_pretty (json : Json) : Bytes.ofString json.pretty = prettyForm.text 0 json :=
  Bytes.ofString_ofList (json.prettyChars 0)

end CircuitForm.Json
