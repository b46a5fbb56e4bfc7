import CircuitForm.Program.Basic
import CircuitForm.Proofs.Entries

/-!
# Descriptors with distinct names

A compiler gives the fields of a struct, and the parameters of a program, names of their own.
Descriptors are read without a check of this, so what depends on it says so. The parameters
of a program are treated as the fields of one struct, whose tree the inputs are.
-/

namespace CircuitForm

namespace Descriptor

/-- Induction over a descriptor, with the hypothesis for each element or field. -/
@[elab_as_elim, induction_eliminator]
theorem inductOn {motive : Descriptor → Prop} (field : motive .field) (boolean : motive .boolean)
    (string : ∀ length, motive (.string length))
    (integer : ∀ sign width, motive (.integer sign width))
    (array : ∀ length element, motive element → motive (.array length element))
    (tuple : ∀ elements, (∀ element ∈ elements, motive element) → motive (.tuple elements))
    (struct : ∀ path fields, (∀ field ∈ fields, motive field.2) → motive (.struct path fields))
    (type : Descriptor) : motive type :=
  Descriptor.rec (motive_1 := motive) (motive_2 := fun elements => ∀ element ∈ elements, motive element)
    (motive_3 := fun fields => ∀ field ∈ fields, motive field.2) (motive_4 := fun field => motive field.2)
    field boolean string integer array tuple struct
    (fun _ h => nomatch h)
    (fun _ _ hHead hRest _ h => (List.mem_cons.mp h).elim (fun hSame => hSame ▸ hHead) (hRest _))
    (fun _ h => nomatch h)
    (fun _ _ hHead hRest _ h => (List.mem_cons.mp h).elim (fun hSame => hSame ▸ hHead) (hRest _))
    (fun _ _ h => h) type

mutual

/-- In no struct at any level does a field name come twice. -/
def DistinctNames : Descriptor → Prop
  | .array _ element => DistinctNames element
  | .tuple elements => DistinctNamesEach elements
  | .struct _ fields => Entries.Distinct fields ∧ DistinctNamesFields fields
  | .field | .boolean | .string _ | .integer _ _ => True

def DistinctNamesEach : List Descriptor → Prop
  | [] => True
  | element :: rest => DistinctNames element ∧ DistinctNamesEach rest

def DistinctNamesFields : List (String × Descriptor) → Prop
  | [] => True
  | (_, type) :: rest => DistinctNames type ∧ DistinctNamesFields rest

end

theorem distinctNames_of_isScalar {type : Descriptor} (hScalar : type.isScalar = true) :
    type.DistinctNames := by
  cases type with
  | field | boolean | string _ | integer _ _ => trivial
  | array _ _ | tuple _ | struct _ _ => cases hScalar

theorem distinctNames_tuple_iff {elements : List Descriptor} :
    (tuple elements).DistinctNames ↔ ∀ element ∈ elements, element.DistinctNames := by
  rw [DistinctNames]
  induction elements with
  | nil => simp [DistinctNamesEach]
  | cons element rest ih => simp [DistinctNamesEach, ih]

theorem distinctNames_struct_iff {path : String} {fields : Entries Descriptor} :
    (struct path fields).DistinctNames ↔
      fields.Distinct ∧ ∀ field ∈ fields, field.2.DistinctNames := by
  have hFields : DistinctNamesFields fields ↔ ∀ field ∈ fields, field.2.DistinctNames := by
    induction fields with
    | nil => simp [DistinctNamesFields]
    | cons field rest ih => rw [DistinctNamesFields, ih, List.forall_mem_cons]
  rw [DistinctNames, hFields]

theorem at?_cons (type : Descriptor) (segment : Segment) (rest : Path) :
    type.at? (segment :: rest) = (type.child segment).bind (·.at? rest) := rfl

/-- What is declared one step below is the element of an array, an element of a tuple, or a field
of a struct under its name. -/
theorem child_cases {type declared : Descriptor} {segment : Segment}
    (h : type.child segment = some declared) :
    (∃ length i, type = array length declared ∧ segment = .index i) ∨
    (∃ elements i, type = tuple elements ∧ segment = .index i ∧ declared ∈ elements) ∨
    (∃ path, ∃ fields : Entries Descriptor, ∃ name, type = struct path fields ∧ segment = .key name ∧
      (name, declared) ∈ fields) := by
  cases type with
  | field | boolean | string _ | integer _ _ => cases segment <;> cases h
  | array length element =>
    cases segment with
    | key _ => cases h
    | index i =>
      rw [child, Option.ite_none_right_eq_some] at h
      obtain ⟨-, ⟨⟩⟩ := h
      exact .inl ⟨length, i, rfl, rfl⟩
  | tuple elements =>
    cases segment with
    | key _ => cases h
    | index i => exact .inr (.inl ⟨elements, i, rfl, rfl, List.mem_of_getElem? h⟩)
  | struct path fields =>
    cases segment with
    | index _ => cases h
    | key name => exact .inr (.inr ⟨path, fields, name, rfl, rfl, Entries.mem_of_lookup h⟩)

theorem DistinctNames.child {type declared : Descriptor} (h : type.DistinctNames) {segment : Segment}
    (hType : type.child segment = some declared) : declared.DistinctNames := by
  obtain ⟨length, i, rfl, -⟩ | ⟨elements, i, rfl, -, hElement⟩ | ⟨path, fields, name, rfl, -, hField⟩ :=
    child_cases hType
  · exact h
  · exact distinctNames_tuple_iff.mp h declared hElement
  · exact (distinctNames_struct_iff.mp h).2 (name, declared) hField

theorem DistinctNames.at? {type declared : Descriptor} (h : type.DistinctNames) {path : Path}
    (hType : type.at? path = some declared) : declared.DistinctNames := by
  induction path generalizing type with
  | nil => exact Option.some.inj hType ▸ h
  | cons segment rest ih =>
    rw [at?_cons] at hType
    obtain ⟨below, hBelow, hRest⟩ := Option.bind_eq_some_iff.mp hType
    exact ih (h.child hBelow) hRest

def ofParameters (parameters : List Parameter) : Descriptor :=
  .struct "" (parameters.map fun parameter => (parameter.name, parameter.type))

theorem lookup_map_parameters (parameters : List Parameter) (name : String) :
    (parameters.map fun parameter => (parameter.name, parameter.type)).lookup name =
      (parameters.find? (·.name == name)).map Parameter.type := by
  induction parameters with
  | nil => rfl
  | cons parameter rest ih =>
    by_cases hName : parameter.name = name
    · simp [hName]
    · rw [List.map_cons, List.lookup_cons, beq_false_of_ne (Ne.symm hName),
        List.find?_cons_of_neg (by simpa using hName)]
      exact ih

theorem distinctNames_ofParameters {parameters : List Parameter}
    (hNames : (parameters.map Parameter.name).Nodup)
    (hTypes : ∀ parameter ∈ parameters, parameter.type.DistinctNames) :
    (ofParameters parameters).DistinctNames := by
  rw [ofParameters, distinctNames_struct_iff]
  constructor
  · simpa [Entries.Distinct, Entries.names, Function.comp_def] using hNames
  · intro field hField
    obtain ⟨parameter, hParameter, rfl⟩ := List.mem_map.mp hField
    exact hTypes parameter hParameter

theorem typeAt_cons (parameters : List Parameter) (segment : Segment) (rest : Path) :
    typeAt parameters (segment :: rest) = (ofParameters parameters).at? (segment :: rest) := by
  cases segment with
  | index i => rfl
  | key name =>
    simp only [typeAt, at?, List.foldlM_cons, ofParameters, child, lookup_map_parameters]
    cases parameters.find? (·.name == name) <;> rfl

end Descriptor

def Program.DistinctNames (program : Program) : Prop :=
  (program.parameters.map Parameter.name).Nodup ∧
    ∀ parameter ∈ program.parameters, parameter.type.DistinctNames

def Registry.DistinctNames (registry : Registry) : Prop :=
  ∀ entry ∈ registry, entry.2.DistinctNames

theorem Program.DistinctNames.ofParameters {program : Program} (h : program.DistinctNames) :
    (Descriptor.ofParameters program.parameters).DistinctNames :=
  Descriptor.distinctNames_ofParameters h.1 h.2

theorem Program.DistinctNames.typeAt {program : Program} (h : program.DistinctNames) {path : Path}
    {type : Descriptor} (hType : typeAt program.parameters path = some type) : type.DistinctNames := by
  cases path with
  | nil => cases hType
  | cons segment rest =>
    rw [Descriptor.typeAt_cons] at hType
    exact h.ofParameters.at? hType

theorem child_ofParameters {program : Program} (hNames : program.DistinctNames) {parameter : Parameter}
    (hParameter : parameter ∈ program.parameters) :
    (Descriptor.ofParameters program.parameters).child (.key parameter.name) = some parameter.type := by
  have hDistinct := (Descriptor.distinctNames_struct_iff.mp hNames.ofParameters).1
  exact Entries.lookup_of_mem hDistinct (List.mem_map_of_mem hParameter)

theorem typeAt_parameter {program : Program} (hNames : program.DistinctNames) {parameter : Parameter}
    (hParameter : parameter ∈ program.parameters) (rest : Path) :
    typeAt program.parameters (.key parameter.name :: rest) = parameter.type.at? rest := by
  rw [Descriptor.typeAt_cons, Descriptor.at?_cons, child_ofParameters hNames hParameter, Option.bind_some]

end CircuitForm
