import CircuitForm.Proofs.Input.Refusal
import CircuitForm.Proofs.Json.Value
import CircuitForm.Proofs.Outcome

/-!
# Whole documents

A document of inputs is checked as one struct whose fields are the parameters. It has a literal
exactly when it has a tree, and then the literal is that of the tree.
-/

namespace CircuitForm

namespace Literal

theorem itemsOfJson_eq_ok_iff {items : List Json}
    (h : ∀ item ∈ items, ∀ path literal, ofJsonAt path item = .ok literal ↔
      ∃ tree, InputTree.ofJson? item = some tree ∧ ofTree tree = literal)
    {path : Path} {index : Nat} {literals : List Literal} :
    itemsOfJson path index items = .ok literals ↔
      ∃ trees, InputTree.itemsOfJson? items = some trees ∧ ofTrees trees = literals := by
  induction items generalizing index literals with
  | nil => simp [itemsOfJson, InputTree.itemsOfJson?, ofTrees]
  | cons item rest ih =>
    rw [List.forall_mem_cons] at h
    simp only [itemsOfJson, InputTree.itemsOfJson?, bind_eq_ok_iff, Option.bind_eq_bind,
      Option.bind_eq_some_iff, h.1, ih h.2]
    constructor
    · rintro ⟨_, ⟨tree, hTree, rfl⟩, _, ⟨trees, hTrees, rfl⟩, ⟨⟩⟩
      exact ⟨tree :: trees, ⟨tree, hTree, trees, hTrees, rfl⟩, rfl⟩
    · rintro ⟨_, ⟨tree, hTree, trees, hTrees, ⟨⟩⟩, rfl⟩
      exact ⟨_, ⟨tree, hTree, rfl⟩, _, ⟨trees, hTrees, rfl⟩, rfl⟩

theorem entriesOfJson_eq_ok_iff {members : Entries Json}
    (h : ∀ member ∈ members, ∀ path literal, ofJsonAt path member.2 = .ok literal ↔
      ∃ tree, InputTree.ofJson? member.2 = some tree ∧ ofTree tree = literal)
    {path : Path} {literals : Entries Literal} :
    entriesOfJson path members = .ok literals ↔
      ∃ fields, InputTree.fieldsOfJson? members = some fields ∧ ofFields fields = literals := by
  induction members generalizing literals with
  | nil => simp [entriesOfJson, InputTree.fieldsOfJson?, ofFields]
  | cons member rest ih =>
    obtain ⟨name, item⟩ := member
    rw [List.forall_mem_cons] at h
    simp only [entriesOfJson, InputTree.fieldsOfJson?, bind_eq_ok_iff, Option.bind_eq_bind,
      Option.bind_eq_some_iff, h.1, ih h.2]
    constructor
    · rintro ⟨_, ⟨tree, hTree, rfl⟩, _, ⟨fields, hFields, rfl⟩, ⟨⟩⟩
      exact ⟨(name, tree) :: fields, ⟨tree, hTree, fields, hFields, rfl⟩, rfl⟩
    · rintro ⟨_, ⟨tree, hTree, fields, hFields, ⟨⟩⟩, rfl⟩
      exact ⟨_, ⟨tree, hTree, rfl⟩, _, ⟨fields, hFields, rfl⟩, rfl⟩

theorem ofJsonAt_eq_ok_iff {json : Json} {path : Path} {literal : Literal} :
    ofJsonAt path json = .ok literal ↔
      ∃ tree, InputTree.ofJson? json = some tree ∧ ofTree tree = literal := by
  induction json generalizing path literal with
  | null => simp [ofJsonAt, InputTree.ofJson?]
  | bool _ | number _ | string _ => simp [ofJsonAt, InputTree.ofJson?, ofTree]
  | array items ih =>
    simp only [ofJsonAt, InputTree.ofJson?, map_eq_ok_iff, Option.map_eq_some_iff,
      itemsOfJson_eq_ok_iff fun item hItem path literal => ih item hItem]
    constructor
    · rintro ⟨_, ⟨trees, hTrees, rfl⟩, rfl⟩
      exact ⟨.list trees, ⟨trees, hTrees, rfl⟩, rfl⟩
    · rintro ⟨_, ⟨trees, hTrees, rfl⟩, rfl⟩
      exact ⟨_, ⟨trees, hTrees, rfl⟩, rfl⟩
  | object members ih =>
    simp only [ofJsonAt, InputTree.ofJson?, map_eq_ok_iff, Option.map_eq_some_iff,
      entriesOfJson_eq_ok_iff fun member hMember path literal => ih member hMember]
    constructor
    · rintro ⟨_, ⟨fields, hFields, rfl⟩, rfl⟩
      exact ⟨.struct fields, ⟨fields, hFields, rfl⟩, rfl⟩
    · rintro ⟨_, ⟨fields, hFields, rfl⟩, rfl⟩
      exact ⟨_, ⟨fields, hFields, rfl⟩, rfl⟩

end Literal

theorem coerceParameters_eq (parameters : List Parameter) (literals : Entries Literal) (built : Inputs)
    (errors : List InputError) :
    (coerceParameters parameters literals built errors).2 =
        (coerceFields (parameters.map fun parameter => (parameter.name, parameter.type)) literals []
          built errors).2 ∧
      ∀ inputs, (coerceFields (parameters.map fun parameter => (parameter.name, parameter.type))
          literals [] built errors).1 = some inputs →
        (coerceParameters parameters literals built errors).1 = inputs := by
  induction parameters generalizing built errors with
  | nil => exact ⟨rfl, fun inputs h => Option.some.inj h⟩
  | cons parameter rest ih =>
    rw [List.map_cons, coerceFields, coerceParameters]
    cases hLiteral : literals.lookup parameter.name with
    | none =>
      refine ⟨(ih built errors).1, ?_⟩
      rintro _ ⟨⟩
    | some literal =>
      have hPath : Path.child [] (.key parameter.name) = [.key parameter.name] := rfl
      rw [hPath]
      dsimp only
      rcases coerce parameter.type literal [.key parameter.name] errors with ⟨_ | tree, found⟩
      · refine ⟨(ih built found).1, ?_⟩
        rintro _ ⟨⟩
      · exact ih _ found

theorem coerce_struct_eq_iff {declared : String} {fields : Entries Descriptor}
    {literals : Entries Literal} {path : Path} {errors found : List InputError}
    {trees : Entries InputTree} :
    coerce (.struct declared fields) (.object literals) path errors = (some (.struct trees), found) ↔
      fieldSetError? path fields.names literals = none ∧
        coerceFields fields literals path [] errors = (some trees, found) := by
  rw [coerce, Entries.names]
  cases fieldSetError? path (fields.map Prod.fst) literals with
  | some error => simp
  | none =>
    rcases coerceFields fields literals path [] errors with ⟨_ | new, _⟩ <;> simp

/-- A missing field would leave an error, so without errors each parameter has its tree. -/
theorem coerceParameters_eq_ok_iff {parameters : List Parameter} {literals : Entries Literal}
    {inputs : Inputs} (hSet : fieldSetError? [] (parameters.map Parameter.name) literals = none) :
    coerceParameters parameters literals [] [] = (inputs, []) ↔
      coerceFields (parameters.map fun parameter => (parameter.name, parameter.type)) literals [] [] [] =
        (some inputs, []) := by
  obtain ⟨hErrors, hTrees⟩ := coerceParameters_eq parameters literals [] []
  have hNames : Entries.names (parameters.map fun parameter => (parameter.name, parameter.type)) =
      parameters.map Parameter.name := by
    simp [Entries.names, Function.comp_def]
  obtain ⟨added, hAdded, hNone⟩ := accounts_coerceFields
    (fun _ _ literal path errors => accounts_coerce _ literal path errors)
    (hNames ▸ (fieldSetError?_eq_none_iff.mp hSet).1) [] [] []
  generalize coerceParameters parameters literals [] [] = result at hErrors hTrees ⊢
  generalize coerceFields (parameters.map fun parameter => (parameter.name, parameter.type)) literals
    [] [] [] = fields at hErrors hTrees hAdded hNone ⊢
  obtain ⟨built, found⟩ := result
  obtain ⟨trees, errors⟩ := fields
  dsimp only at hErrors hTrees hAdded hNone
  rw [List.nil_append] at hAdded
  subst hErrors hAdded
  cases trees with
  | none =>
    have hRefused := hNone.mp rfl
    simp [hRefused]
  | some new =>
    cases hTrees new rfl
    simp

theorem checkInputs_eq_ok_iff {parameters : List Parameter} {document : Json} {inputs : Inputs} :
    checkInputs parameters document = .ok inputs ↔ ∃ literal, Literal.ofJson document = .ok literal ∧
      typecheck (.ofParameters parameters) literal = .ok (.struct inputs) := by
  rw [checkInputs]
  cases hLiteral : Literal.ofJson document with
  | error _ => simp
  | ok literal =>
    simp only [Except.ok.injEq, exists_eq_left', typecheck_eq_ok_iff]
    cases literal with
    | object entries =>
      rw [Descriptor.ofParameters, coerce_struct_eq_iff]
      have hNames : Entries.names (parameters.map fun parameter => (parameter.name, parameter.type)) =
          parameters.map Parameter.name := by
        simp [Entries.names, Function.comp_def]
      rw [hNames]
      cases hSet : fieldSetError? [] (parameters.map Parameter.name) entries with
      | some _ => simp [hSet]
      | none =>
        rw [← coerceParameters_eq_ok_iff hSet]
        simp only [hSet, true_and]
        rcases coerceParameters parameters entries [] [] with ⟨built, _ | ⟨error, errors⟩⟩ <;> simp
    | number _ | boolean _ | string _ | array _ =>
      constructor
      · rintro ⟨⟩
      · rintro ⟨⟩

theorem checkInputs_toJson {program : Program} (hNames : program.DistinctNames) {inputs : Inputs}
    (h : inputs.Fit program.parameters) :
    checkInputs program.parameters (Inputs.toJson inputs) = .ok inputs := by
  have hAccepted := (fits_iff_typecheck hNames.ofParameters).mp (Inputs.fit_iff.mp h)
  exact checkInputs_eq_ok_iff.mpr ⟨_, Literal.ofJson_toJson inputs, hAccepted⟩

end CircuitForm
