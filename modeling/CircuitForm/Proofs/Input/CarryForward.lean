import CircuitForm.Proofs.Input.Coercion
import CircuitForm.Proofs.Input.Leaves

/-!
# Carrying values forward

A tree is built anew for a type, whatever the earlier tree was built for. Its nodes and their order
come from the type alone. Each of its leaves comes from what the earlier tree has at the same path:
a value that is valid there as it stands is kept, and all else makes way for the default.
-/

namespace CircuitForm

/-- A scalar is carried when a check leaves it as it is, and replaced by the default when not. -/
theorem carriedOrDefault_eq {leaf : Descriptor} (hScalar : leaf.isScalar = true) (value : InputTree) :
    (typecheck leaf (.ofTree value) = .ok value → carriedOrDefault leaf (some value) = value) ∧
    (typecheck leaf (.ofTree value) ≠ .ok value →
      carriedOrDefault leaf (some value) = scalarDefault leaf) := by
  rw [ne_eq, ← fits_iff_typecheck (Descriptor.distinctNames_of_isScalar hScalar)]
  exact ⟨carriedOrDefault_of_fits hScalar, carriedOrDefault_of_not_fits hScalar⟩

/-- The default of a scalar: zero, false, or as many placeholders as the string has to have. -/
inductive IsDefault : Descriptor → InputTree → Prop where
  | field : IsDefault .field (.number (.ofNat 0))
  | integer (sign : Sign) (width : Nat) : IsDefault (.integer sign width) (.number (.ofNat 0))
  | boolean : IsDefault .boolean (.boolean false)
  | string (length : Nat) : IsDefault (.string length) (.string (String.ofList (List.replicate length '*')))

theorem isDefault_scalarDefault {leaf : Descriptor} (hScalar : leaf.isScalar = true) :
    IsDefault leaf (scalarDefault leaf) := by
  cases leaf with
  | field => exact .field
  | boolean => exact .boolean
  | string length => exact .string length
  | integer sign width => exact .integer sign width
  | array _ _ | tuple _ | struct _ _ => cases hScalar

/-- The tree is one of the type, with every leaf of an earlier tree that is valid where it stands. -/
structure CarriesForward (type : Descriptor) (previous : Option InputTree) (tree : InputTree) : Prop where
  nodes : ∀ path, (∃ node, tree.at? path = some node) ↔ ∃ declared, type.at? path = some declared
  order : ∀ path declared fields, type.at? path = some (.struct declared fields) →
    ∃ entries, tree.at? path = some (.struct entries) ∧ Entries.names entries = Entries.names fields
  kept : ∀ path leaf old, type.at? path = some leaf → leaf.isScalar = true →
    previous.bind (·.at? path) = some old → typecheck leaf (.ofTree old) = .ok old →
      tree.at? path = some old
  reset : ∀ path leaf, type.at? path = some leaf → leaf.isScalar = true →
    (∀ old, previous.bind (·.at? path) = some old → typecheck leaf (.ofTree old) ≠ .ok old) →
      ∃ value, tree.at? path = some value ∧ IsDefault leaf value

theorem at?_synthesize_of_scalar {type : Descriptor} (hNames : type.DistinctNames)
    (previous : Option InputTree) {path : Path} {leaf : Descriptor} (hLeaf : type.at? path = some leaf)
    (hScalar : leaf.isScalar = true) : (synthesize type previous).at? path =
      some (carriedOrDefault leaf (previous.bind (·.at? path))) := by
  rw [at?_synthesize hNames, hLeaf, Option.map_some, synthesize_scalar hScalar]

theorem carriesForward_synthesize {type : Descriptor} (hNames : type.DistinctNames)
    (previous : Option InputTree) : CarriesForward type previous (synthesize type previous) where
  nodes := (fits_synthesize hNames previous).exists_at?_iff
  order _ _ _ hType := (fits_synthesize hNames previous).exists_entries hType
  kept path leaf old hLeaf hScalar hOld hValid := by
    rw [at?_synthesize_of_scalar hNames previous hLeaf hScalar, hOld, (carriedOrDefault_eq hScalar old).1 hValid]
  reset path leaf hLeaf hScalar hInvalid := by
    refine ⟨scalarDefault leaf, ?_, isDefault_scalarDefault hScalar⟩
    rw [at?_synthesize_of_scalar hNames previous hLeaf hScalar]
    cases hOld : previous.bind (·.at? path) with
    | none => rfl
    | some old => rw [(carriedOrDefault_eq hScalar old).2 (hInvalid old hOld)]

theorem synthesizeInputs_eq_ofList (parameters : List Parameter) (previous : Inputs) :
    synthesizeInputs parameters previous = Entries.ofList (parameters.map fun parameter =>
      (parameter.name, synthesize parameter.type (previous.lookup parameter.name))) := by
  rw [synthesizeInputs, Entries.ofList, List.foldl_map]

/-- Of parameters with one name the last one counts. -/
theorem lookup_synthesizeInputs (front : List Parameter) (parameter : Parameter) {back : List Parameter}
    (hLast : parameter.name ∉ back.map Parameter.name) (previous : Inputs) :
    (synthesizeInputs (front ++ parameter :: back) previous).lookup parameter.name =
      some (synthesize parameter.type (previous.lookup parameter.name)) := by
  let entryOf := fun parameter : Parameter =>
    (parameter.name, synthesize parameter.type (previous.lookup parameter.name))
  have hBack : List.lookup parameter.name (back.map entryOf).reverse = none := by
    apply Entries.lookup_eq_none_iff.mpr
    simpa [Entries.names, entryOf] using hLast
  rw [synthesizeInputs_eq_ofList, Entries.lookup_ofList, List.map_append, List.map_cons, List.reverse_append,
    List.reverse_cons, List.lookup_append, List.lookup_append, hBack]
  simp

theorem names_synthesizeInputs {parameters : List Parameter} (hNames : (parameters.map Parameter.name).Nodup)
    (previous : Inputs) : (synthesizeInputs parameters previous).names = parameters.map Parameter.name := by
  have hEntries : Entries.names (parameters.map fun parameter =>
      (parameter.name, synthesize parameter.type (previous.lookup parameter.name))) =
      parameters.map Parameter.name := by
    simp [Entries.names, Function.comp_def]
  have hDistinct := hNames
  rw [← hEntries] at hDistinct
  rw [synthesizeInputs_eq_ofList, Entries.ofList_of_distinct hDistinct, hEntries]

/-- A tree of a type has every leaf of the earlier tree that is valid for it, and defaults elsewhere. The
inputs of a program are made so parameter by parameter, each from the earlier entry of its name. -/
theorem synthesized_leafwise :
    (∀ type previous, type.DistinctNames → CarriesForward type previous (synthesize type previous)) ∧
    ∀ (parameters : List Parameter) (previous : Inputs),
      (∀ parameter ∈ parameters, parameter.type.DistinctNames) →
        (∀ front parameter back, parameters = front ++ parameter :: back →
          parameter.name ∉ back.map Parameter.name →
            ∃ tree, (synthesizeInputs parameters previous).lookup parameter.name = some tree ∧
              CarriesForward parameter.type (previous.lookup parameter.name) tree) ∧
        ((parameters.map Parameter.name).Nodup →
          (synthesizeInputs parameters previous).names = parameters.map Parameter.name) := by
  constructor
  · intro type previous hNames
    exact carriesForward_synthesize hNames previous
  · intro parameters previous hTypes
    constructor
    · rintro front parameter back rfl hLast
      have hNames : parameter.type.DistinctNames := hTypes parameter (by simp)
      exact ⟨_, lookup_synthesizeInputs front parameter hLast previous, carriesForward_synthesize hNames _⟩
    · intro hNames
      exact names_synthesizeInputs hNames previous

def sampleMeter : Descriptor :=
  .struct "Meter" [("level", .integer .unsigned 8), ("tag", .string 2), ("marks", .array 2 .field)]

/-- A row that is too short, a string that is too long and a name that is not declared. -/
def earlierMeter : InputTree :=
  .struct [("marks", .list [.number (.ofNat 7)]), ("tag", .string "abc"), ("on", .boolean true),
    ("level", .number (.ofNat 5))]

/-- Two meters, of which only the first was there before. -/
def sampleMeters : List Parameter :=
  [⟨"main", sampleMeter, none⟩, ⟨"spare", sampleMeter, none⟩]

theorem synthesized_sampleMeter :
    sampleMeter.DistinctNames ∧
      (synthesize sampleMeter (some earlierMeter)).at? [.key "level"] = some (.number (.ofNat 5)) ∧
      (synthesize sampleMeter (some earlierMeter)).at? [.key "marks", .index 0] =
        some (.number (.ofNat 7)) ∧
      (∃ value, (synthesize sampleMeter (some earlierMeter)).at? [.key "marks", .index 1] = some value ∧
        IsDefault .field value) ∧
      (synthesizeInputs sampleMeters [("main", earlierMeter)]).names = ["main", "spare"] ∧
      (∃ main, (synthesizeInputs sampleMeters [("main", earlierMeter)]).lookup "main" = some main ∧
        main.at? [.key "level"] = some (.number (.ofNat 5))) ∧
      ∃ spare, (synthesizeInputs sampleMeters [("main", earlierMeter)]).lookup "spare" = some spare ∧
        ∃ value, spare.at? [.key "level"] = some value ∧ IsDefault (.integer .unsigned 8) value := by
  have hNames : sampleMeter.DistinctNames := by
    simp [sampleMeter, Descriptor.DistinctNames, Descriptor.DistinctNamesFields, Entries.Distinct]
  have hCarries := synthesized_leafwise.1 sampleMeter (some earlierMeter) hNames
  have hTypes : ∀ parameter ∈ sampleMeters, parameter.type.DistinctNames := by
    simpa [sampleMeters] using hNames
  obtain ⟨hEach, hOrder⟩ := synthesized_leafwise.2 sampleMeters [("main", earlierMeter)] hTypes
  obtain ⟨main, hMain, hMainCarries⟩ := hEach [] ⟨"main", sampleMeter, none⟩ _ rfl (by decide)
  obtain ⟨spare, hSpare, hSpareCarries⟩ :=
    hEach [⟨"main", sampleMeter, none⟩] ⟨"spare", sampleMeter, none⟩ [] rfl (by decide)
  refine ⟨hNames, ?_, ?_, ?_, hOrder (by decide), ⟨main, hMain, ?_⟩, ⟨spare, hSpare, ?_⟩⟩
  · exact hCarries.kept [.key "level"] (.integer .unsigned 8) _ rfl rfl rfl rfl
  · exact hCarries.kept [.key "marks", .index 0] .field _ rfl rfl rfl rfl
  · apply hCarries.reset [.key "marks", .index 1] .field rfl rfl
    rintro old ⟨⟩
  · exact hMainCarries.kept [.key "level"] (.integer .unsigned 8) _ rfl rfl rfl rfl
  · apply hSpareCarries.reset [.key "level"] (.integer .unsigned 8) rfl rfl
    rintro old ⟨⟩

end CircuitForm
