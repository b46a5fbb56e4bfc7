import CircuitForm.Json.Reader
import CircuitForm.Proofs.Descriptor.DistinctNames

/-!
# The nesting of descriptors

How many composites lie inside one another, which bounds the nesting of every value, and whether
a field has the name that a reader of data takes for a number.
-/

namespace CircuitForm

namespace Descriptor

mutual

/-- The number of composites at the deepest place. -/
def depth : Descriptor → Nat
  | .array _ element => depth element + 1
  | .tuple elements => elementsDepth elements + 1
  | .struct _ fields => fieldsDepth fields + 1
  | .field | .boolean | .string _ | .integer _ _ => 0

def elementsDepth : List Descriptor → Nat
  | [] => 0
  | element :: rest => max (depth element) (elementsDepth rest)

def fieldsDepth : List (String × Descriptor) → Nat
  | [] => 0
  | (_, type) :: rest => max (depth type) (fieldsDepth rest)

end

theorem elementsDepth_le_iff {elements : List Descriptor} {d : Nat} :
    elementsDepth elements ≤ d ↔ ∀ element ∈ elements, element.depth ≤ d := by
  induction elements with
  | nil => simp [elementsDepth]
  | cons element rest ih => rw [elementsDepth, Nat.max_le, ih, List.forall_mem_cons]

theorem fieldsDepth_le_iff {fields : Entries Descriptor} {d : Nat} :
    fieldsDepth fields ≤ d ↔ ∀ field ∈ fields, field.2.depth ≤ d := by
  induction fields with
  | nil => simp [fieldsDepth]
  | cons field rest ih =>
    obtain ⟨name, type⟩ := field
    rw [fieldsDepth, Nat.max_le, ih, List.forall_mem_cons]

theorem depth_eq_zero_iff {type : Descriptor} : type.depth = 0 ↔ type.isScalar = true := by
  cases type <;> simp [depth, isScalar]

theorem depth_lt_of_child {type declared : Descriptor} {segment : Segment}
    (h : type.child segment = some declared) : declared.depth < type.depth := by
  obtain ⟨length, i, rfl, -⟩ | ⟨elements, i, rfl, -, hElement⟩ | ⟨path, fields, name, rfl, -, hField⟩ :=
    child_cases h
  · exact Nat.lt_succ_self _
  · exact Nat.lt_succ_of_le (elementsDepth_le_iff.mp (Nat.le_refl _) declared hElement)
  · exact Nat.lt_succ_of_le (fieldsDepth_le_iff.mp (Nat.le_refl _) (name, declared) hField)

/-- Induction over a descriptor by what it declares one step below. -/
theorem inductOnChild {motive : Descriptor → Prop}
    (step : ∀ type, (∀ segment declared, Descriptor.child type segment = some declared →
      motive declared) → motive type)
    (type : Descriptor) : motive type := by
  induction hDepth : type.depth using Nat.strongRecOn generalizing type with
  | ind d ih =>
    refine step type fun segment declared hChild => ?_
    exact ih declared.depth (hDepth ▸ depth_lt_of_child hChild) declared rfl

mutual

/-- In no struct at any level does a field have the reserved name. -/
def Unreserved : Descriptor → Prop
  | .array _ element => Unreserved element
  | .tuple elements => UnreservedEach elements
  | .struct _ fields => UnreservedFields fields
  | .field | .boolean | .string _ | .integer _ _ => True

def UnreservedEach : List Descriptor → Prop
  | [] => True
  | element :: rest => Unreserved element ∧ UnreservedEach rest

def UnreservedFields : List (String × Descriptor) → Prop
  | [] => True
  | (name, type) :: rest => (name ≠ Json.reservedKey ∧ Unreserved type) ∧ UnreservedFields rest

end

theorem unreserved_of_isScalar {type : Descriptor} (hScalar : type.isScalar = true) : type.Unreserved := by
  cases type with
  | field | boolean | string _ | integer _ _ => trivial
  | array _ _ | tuple _ | struct _ _ => cases hScalar

theorem unreserved_tuple_iff {elements : List Descriptor} :
    (tuple elements).Unreserved ↔ ∀ element ∈ elements, element.Unreserved := by
  rw [Unreserved]
  induction elements with
  | nil => simp [UnreservedEach]
  | cons element rest ih => rw [UnreservedEach, ih, List.forall_mem_cons]

theorem unreserved_struct_iff {path : String} {fields : Entries Descriptor} :
    (struct path fields).Unreserved ↔
      ∀ field ∈ fields, field.1 ≠ Json.reservedKey ∧ field.2.Unreserved := by
  rw [Unreserved]
  induction fields with
  | nil => simp [UnreservedFields]
  | cons field rest ih =>
    obtain ⟨name, type⟩ := field
    rw [UnreservedFields, ih, List.forall_mem_cons]

theorem Unreserved.child {type declared : Descriptor} (h : type.Unreserved) {segment : Segment}
    (hType : type.child segment = some declared) :
    segment ≠ .key Json.reservedKey ∧ declared.Unreserved := by
  obtain ⟨length, i, rfl, rfl⟩ | ⟨elements, i, rfl, rfl, hElement⟩ | ⟨path, fields, name, rfl, rfl, hField⟩ :=
    child_cases hType
  · exact ⟨nofun, h⟩
  · exact ⟨nofun, unreserved_tuple_iff.mp h declared hElement⟩
  · obtain ⟨hName, hDeclared⟩ := unreserved_struct_iff.mp h (name, declared) hField
    exact ⟨fun hSame => hName (Segment.key.inj hSame), hDeclared⟩

theorem depth_ofParameters_le {parameters : List Parameter} {d : Nat}
    (h : ∀ parameter ∈ parameters, parameter.type.depth ≤ d) : (ofParameters parameters).depth ≤ d + 1 := by
  rw [ofParameters, depth, Nat.succ_le_succ_iff, fieldsDepth_le_iff, List.forall_mem_map]
  exact h

end Descriptor

def Program.Unreserved (program : Program) : Prop :=
  ∀ parameter ∈ program.parameters, parameter.name ≠ Json.reservedKey ∧ parameter.type.Unreserved

def Registry.Unreserved (registry : Registry) : Prop :=
  ∀ entry ∈ registry, entry.2.Unreserved

theorem Program.Unreserved.ofParameters {program : Program} (h : program.Unreserved) :
    (Descriptor.ofParameters program.parameters).Unreserved := by
  rw [Descriptor.ofParameters, Descriptor.unreserved_struct_iff, List.forall_mem_map]
  exact h

end CircuitForm
