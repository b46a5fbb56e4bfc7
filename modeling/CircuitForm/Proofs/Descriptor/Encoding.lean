import CircuitForm.Descriptor.Json
import CircuitForm.Proofs.Descriptor.Nesting
import CircuitForm.Proofs.Json.Value

/-!
# Descriptors as they are written

A descriptor can be written within a number of brackets and read back if its JSON nests no deeper
and its lengths and widths are words of the sizes that readers take.
-/

namespace CircuitForm.Descriptor

mutual

/-- Lengths are words of 64 bits and widths of 32. -/
def FitsWords : Descriptor → Prop
  | .string length => length < Word.bound64
  | .integer _ width => width < Word.bound32
  | .array length element => length < Word.bound64 ∧ FitsWords element
  | .tuple elements => FitsWordsEach elements
  | .struct _ fields => FitsWordsFields fields
  | .field | .boolean => True

def FitsWordsEach : List Descriptor → Prop
  | [] => True
  | element :: rest => FitsWords element ∧ FitsWordsEach rest

def FitsWordsFields : List (String × Descriptor) → Prop
  | [] => True
  | (_, type) :: rest => FitsWords type ∧ FitsWordsFields rest

end

theorem fitsWords_tuple_iff {elements : List Descriptor} :
    (tuple elements).FitsWords ↔ ∀ element ∈ elements, element.FitsWords := by
  rw [FitsWords]
  induction elements with
  | nil => simp [FitsWordsEach]
  | cons element rest ih => rw [FitsWordsEach, ih, List.forall_mem_cons]

theorem fitsWords_struct_iff {path : String} {fields : Entries Descriptor} :
    (struct path fields).FitsWords ↔ ∀ field ∈ fields, field.2.FitsWords := by
  rw [FitsWords]
  induction fields with
  | nil => simp [FitsWordsFields]
  | cons field rest ih =>
    obtain ⟨name, type⟩ := field
    rw [FitsWordsFields, ih, List.forall_mem_cons]

def fieldToJson (field : String × Descriptor) : Json :=
  .object [("name", .string field.1), ("type", field.2.toJson)]

theorem elementsToJson_eq_map (elements : List Descriptor) : elementsToJson elements = elements.map toJson := by
  induction elements with
  | nil => rfl
  | cons element rest ih => rw [elementsToJson, ih, List.map_cons]

theorem fieldsToJson_eq_map (fields : Entries Descriptor) : fieldsToJson fields = fields.map fieldToJson := by
  induction fields with
  | nil => rfl
  | cons field rest ih =>
    obtain ⟨name, type⟩ := field
    rw [fieldsToJson, ih, List.map_cons]
    rfl

theorem depth_toJson_array (length : Nat) (element : Descriptor) :
    (array length element).toJson.depth = element.toJson.depth + 1 := by
  simp [toJson, tagged, Json.depth, Json.membersDepth]

/-- There is a bracket of the tuple's own around its elements, and one of their list. -/
theorem depth_toJson_tuple (elements : List Descriptor) :
    (tuple elements).toJson.depth = Json.itemsDepth (elements.map toJson) + 2 := by
  simp [toJson, tagged, Json.depth, Json.membersDepth, elementsToJson_eq_map]

theorem depth_toJson_struct (path : String) (fields : Entries Descriptor) :
    (struct path fields).toJson.depth = Json.itemsDepth (fields.map fieldToJson) + 2 := by
  simp [toJson, tagged, Json.depth, Json.membersDepth, fieldsToJson_eq_map]

theorem depth_fieldToJson (field : String × Descriptor) :
    (fieldToJson field).depth = field.2.toJson.depth + 1 := by
  simp [fieldToJson, Json.depth, Json.membersDepth]

theorem depth_le_depth_toJson (type : Descriptor) : type.depth ≤ type.toJson.depth := by
  induction type with
  | field | boolean | string _ | integer _ _ => exact Nat.zero_le _
  | array length element ih =>
    rw [depth_toJson_array]
    exact Nat.succ_le_succ ih
  | tuple elements ih =>
    have hElements : elementsDepth elements ≤ Json.itemsDepth (elements.map toJson) :=
      elementsDepth_le_iff.mpr fun element hElement => Nat.le_trans (ih element hElement)
        (Json.itemsDepth_le_iff.mp (Nat.le_refl _) _ (List.mem_map_of_mem hElement))
    rw [depth_toJson_tuple, depth]
    omega
  | struct path fields ih =>
    have hFields : fieldsDepth fields ≤ Json.itemsDepth (fields.map fieldToJson) := by
      refine fieldsDepth_le_iff.mpr fun field hField => ?_
      have hItem := Json.itemsDepth_le_iff.mp (Nat.le_refl _) _ (List.mem_map_of_mem (f := fieldToJson) hField)
      rw [depth_fieldToJson] at hItem
      exact Nat.le_trans (ih field hField) (Nat.le_of_succ_le hItem)
    rw [depth_toJson_struct, depth]
    omega

/-- Can be written within so many brackets and read back. -/
structure Encodable (type : Descriptor) (d : Nat) : Prop where
  words : type.FitsWords
  depth : type.toJson.depth ≤ d

structure EncodableField (field : String × Descriptor) (d : Nat) : Prop where
  words : field.2.FitsWords
  depth : (fieldToJson field).depth ≤ d

variable {d : Nat}

theorem Encodable.mono {type : Descriptor} {c : Nat} (h : type.Encodable c) (hLe : c ≤ d) : type.Encodable d :=
  ⟨h.words, Nat.le_trans h.depth hLe⟩

theorem EncodableField.mono {field : String × Descriptor} {c : Nat} (h : EncodableField field c) (hLe : c ≤ d) :
    EncodableField field d :=
  ⟨h.words, Nat.le_trans h.depth hLe⟩

theorem encodableField_iff {field : String × Descriptor} :
    EncodableField field (d + 1) ↔ field.2.Encodable d := by
  constructor
  · rintro ⟨hWords, hDepth⟩
    rw [depth_fieldToJson] at hDepth
    exact ⟨hWords, Nat.le_of_succ_le_succ hDepth⟩
  · rintro ⟨hWords, hDepth⟩
    refine ⟨hWords, ?_⟩
    rw [depth_fieldToJson]
    exact Nat.succ_le_succ hDepth

theorem encodable_array_iff {length : Nat} {element : Descriptor} :
    (array length element).Encodable (d + 1) ↔ length < Word.bound64 ∧ element.Encodable d := by
  constructor
  · rintro ⟨⟨hLength, hWords⟩, hDepth⟩
    rw [depth_toJson_array] at hDepth
    exact ⟨hLength, hWords, Nat.le_of_succ_le_succ hDepth⟩
  · rintro ⟨hLength, hWords, hDepth⟩
    refine ⟨⟨hLength, hWords⟩, ?_⟩
    rw [depth_toJson_array]
    exact Nat.succ_le_succ hDepth

theorem encodable_tuple_iff {elements : List Descriptor} :
    (tuple elements).Encodable (d + 2) ↔ ∀ element ∈ elements, element.Encodable d := by
  have hDepth : (tuple elements).toJson.depth ≤ d + 2 ↔ ∀ element ∈ elements, element.toJson.depth ≤ d := by
    rw [depth_toJson_tuple, Nat.add_le_add_iff_right, Json.itemsDepth_le_iff, List.forall_mem_map]
  constructor
  · rintro ⟨hWords, hLe⟩ element hElement
    exact ⟨fitsWords_tuple_iff.mp hWords element hElement, hDepth.mp hLe element hElement⟩
  · intro h
    exact ⟨fitsWords_tuple_iff.mpr fun element hElement => (h element hElement).words,
      hDepth.mpr fun element hElement => (h element hElement).depth⟩

theorem encodable_struct_iff {path : String} {fields : Entries Descriptor} :
    (struct path fields).Encodable (d + 2) ↔ ∀ field ∈ fields, EncodableField field d := by
  have hDepth : (struct path fields).toJson.depth ≤ d + 2 ↔ ∀ field ∈ fields, (fieldToJson field).depth ≤ d := by
    rw [depth_toJson_struct, Nat.add_le_add_iff_right, Json.itemsDepth_le_iff, List.forall_mem_map]
  constructor
  · rintro ⟨hWords, hLe⟩ field hField
    exact ⟨fitsWords_struct_iff.mp hWords field hField, hDepth.mp hLe field hField⟩
  · intro h
    exact ⟨fitsWords_struct_iff.mpr fun field hField => (h field hField).words,
      hDepth.mpr fun field hField => (h field hField).depth⟩

end CircuitForm.Descriptor
