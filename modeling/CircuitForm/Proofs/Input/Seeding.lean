import CircuitForm.Proofs.Input.Descent
import CircuitForm.Proofs.Input.Document
import CircuitForm.Proofs.Input.Leaves

/-!
# Seeding with what a check accepts

A check takes 0, 1 and the words as truth values where a boolean is declared; a seed carries
only leaves that are booleans already. This is the only way in which the two part: every
other leaf of an accepted document is carried as it was accepted.
-/

namespace CircuitForm

/-- A scalar that is accepted is kept as it is, unless it spells a boolean. -/
theorem eq_of_scalarOf {type : Descriptor} (hScalar : type.isScalar = true) {tree accepted : InputTree}
    (hSpelled : type = .boolean → ∃ b, tree = .boolean b)
    (h : scalarOf type (.ofTree tree) = .ok accepted) : accepted = tree := by
  cases type with
  | boolean =>
    obtain ⟨b, rfl⟩ := hSpelled rfl
    cases h
    rfl
  | field =>
    cases tree <;> cases h
    rfl
  | string length =>
    cases tree with
    | string s =>
      rw [Literal.ofTree, scalarOf] at h
      split at h <;> cases h
      rfl
    | number _ | boolean _ | list _ | struct _ => cases h
  | integer sign width =>
    cases tree with
    | number n =>
      rw [Literal.ofTree, scalarOf] at h
      split at h <;> cases h
      rfl
    | boolean _ | string _ | list _ | struct _ => cases h
  | array _ _ | tuple _ | struct _ _ => cases hScalar

/-- At a declared leaf the earlier tree has a scalar that is accepted there, and what is
synthesized is that scalar or the default. -/
theorem leaf_of_coerces {type : Descriptor} (hNames : type.DistinctNames) {tree accepted : InputTree}
    (h : Coerces type (.ofTree tree) accepted) {path : Path} {leaf : Descriptor}
    (hLeaf : type.at? path = some leaf) (hScalar : leaf.isScalar = true) :
    ∃ item kept, tree.at? path = some item ∧ accepted.at? path = some kept ∧
      scalarOf leaf (.ofTree item) = .ok kept ∧
      (synthesize type (some tree)).at? path = some (carriedOrDefault leaf (some item)) := by
  have hNode := h.at?_rel hNames path
  rw [hLeaf, Literal.at?_ofTree] at hNode
  cases hItem : tree.at? path with
  | none =>
    rw [hItem] at hNode
    cases hNode
  | some item =>
    rw [hItem] at hNode
    cases hNode with
    | some hBelow =>
      obtain ⟨kept, hKept, hCoerces⟩ := hBelow
      refine ⟨item, kept, rfl, hKept, scalarOf_of_coerces hScalar hCoerces, ?_⟩
      rw [at?_synthesize hNames, hLeaf, Option.map_some, Option.bind_some, hItem,
        synthesize_scalar hScalar]

/-- Where a boolean is declared, the inputs hold none: a number or a text stands for it. -/
def Inputs.Spells (inputs : Inputs) (parameters : List Parameter) (path : Path) : Prop :=
  typeAt parameters path = some .boolean ∧ ∀ b, inputs.at? path ≠ some (.boolean b)

section

variable {parameters : List Parameter} {previous checked : Inputs}

theorem leaf_synthesizeInputs (hNames : (Descriptor.ofParameters parameters).DistinctNames)
    (h : Coerces (.ofParameters parameters) (.ofTree (.struct previous)) (.struct checked))
    {path : Path} {leaf : Descriptor} (hLeaf : typeAt parameters path = some leaf)
    (hScalar : leaf.isScalar = true) :
    (previous.Spells parameters path →
      (synthesizeInputs parameters previous).at? path = some (.boolean false)) ∧
    (¬ previous.Spells parameters path →
      (synthesizeInputs parameters previous).at? path = checked.at? path) := by
  cases path with
  | nil => cases hLeaf
  | cons segment rest =>
    rw [Inputs.Spells, hLeaf, Inputs.at?_cons, Inputs.at?_cons, Inputs.at?_cons, struct_synthesizeInputs]
    rw [Descriptor.typeAt_cons] at hLeaf
    obtain ⟨item, kept, hItem, hKept, hAccepted, hSeeded⟩ := leaf_of_coerces hNames h hLeaf hScalar
    rw [hItem, hKept, hSeeded]
    constructor
    · rintro ⟨⟨⟩, hSpelled⟩
      cases item with
      | boolean b => exact absurd rfl (hSpelled b)
      | number _ | string _ | list _ | struct _ => rfl
    · intro hPlain
      have hSame : kept = item := by
        refine eq_of_scalarOf hScalar (fun hBoolean => ?_) hAccepted
        cases item with
        | boolean b => exact ⟨b, rfl⟩
        | number _ | string _ | list _ | struct _ => exact absurd ⟨congrArg some hBoolean, nofun⟩ hPlain
      have hFits : item.Fits leaf := hSame ▸ fits_of_scalarOf hAccepted
      rw [carriedOrDefault_of_fits hScalar hFits, hSame]

theorem synthesizeInputs_eq_iff (hNames : (Descriptor.ofParameters parameters).DistinctNames)
    (h : Coerces (.ofParameters parameters) (.ofTree (.struct previous)) (.struct checked)) :
    synthesizeInputs parameters previous = checked ↔
      ∀ path, previous.Spells parameters path → checked.at? path = some (.boolean false) := by
  constructor
  · rintro rfl path hSpelled
    exact (leaf_synthesizeInputs hNames h hSpelled.1 rfl).1 hSpelled
  · intro hFalse
    have hSeededFits : (InputTree.struct (synthesizeInputs parameters previous)).Fits
        (.ofParameters parameters) := by
      rw [struct_synthesizeInputs]
      exact fits_synthesize hNames _
    have hTrees := hSeededFits.eq_of_leaves hNames (h.fits hNames) fun path leaf hLeaf hScalar => by
      cases path with
      | nil =>
        cases hLeaf
        cases hScalar
      | cons segment rest =>
        rw [← Descriptor.typeAt_cons] at hLeaf
        rw [← Inputs.at?_cons, ← Inputs.at?_cons]
        obtain ⟨hDefault, hCarried⟩ := leaf_synthesizeInputs hNames h hLeaf hScalar
        by_cases hSpelled : previous.Spells parameters (segment :: rest)
        · rw [hDefault hSpelled, hFalse _ hSpelled]
        · exact hCarried hSpelled
    exact InputTree.struct.inj hTrees

end

/-- Seeding with an accepted document keeps every leaf as it was accepted, except that a spelled
boolean becomes false. So the inputs are those accepted just when each of these was false. -/
theorem synthesizeInputs_of_checkInputs {parameters : List Parameter}
    (hNames : (parameters.map Parameter.name).Nodup)
    (hTypes : ∀ parameter ∈ parameters, parameter.type.DistinctNames)
    {document : Json} {checked : Inputs} (h : checkInputs parameters document = .ok checked) :
    ∃ previous : Inputs, InputTree.ofJson? document = some (.struct previous) ∧
      (∀ path leaf, typeAt parameters path = some leaf → leaf.isScalar = true →
        (previous.Spells parameters path →
          (synthesizeInputs parameters previous).at? path = some (.boolean false)) ∧
        (¬ previous.Spells parameters path →
          (synthesizeInputs parameters previous).at? path = checked.at? path)) ∧
      (synthesizeInputs parameters previous = checked ↔
        ∀ path, previous.Spells parameters path → checked.at? path = some (.boolean false)) := by
  have hDistinct := Descriptor.distinctNames_ofParameters hNames hTypes
  obtain ⟨literal, hLiteral, hChecked⟩ := checkInputs_eq_ok_iff.mp h
  obtain ⟨tree, hTree, rfl⟩ := Literal.ofJsonAt_eq_ok_iff.mp hLiteral
  have hCoerces := coerces_of_typecheck hChecked
  obtain ⟨entries, _, hEntries, -⟩ := exists_struct_of_coerces
    (Descriptor.distinctNames_struct_iff.mp hDistinct).1 hCoerces
  cases tree with
  | struct previous =>
    exact ⟨previous, hTree, fun path leaf hLeaf hScalar =>
      leaf_synthesizeInputs hDistinct hCoerces hLeaf hScalar, synthesizeInputs_eq_iff hDistinct hCoerces⟩
  | number _ | boolean _ | string _ | list _ => cases hEntries

def switchParameters : List Parameter := [⟨"on", .boolean, none⟩, ⟨"level", .field, none⟩]

def switchDocument : Json := .object [("level", .number (.ofNat 5)), ("on", .number (.ofNat 1))]

def switchInputs : Inputs := [("on", .boolean true), ("level", .number (.ofNat 5))]

theorem distinctNames_switch : ∀ parameter ∈ switchParameters, parameter.type.DistinctNames := by
  simp [switchParameters, Descriptor.DistinctNames]

theorem checkInputs_switch : checkInputs switchParameters switchDocument = .ok switchInputs := by
  with_unfolding_all rfl

/-- The one is accepted as true; seeding with the same document makes it false. -/
theorem not_seeded_as_checked : ¬ ∀ (parameters : List Parameter) (document : Json) (checked : Inputs),
    (parameters.map Parameter.name).Nodup →
    (∀ parameter ∈ parameters, parameter.type.DistinctNames) →
    checkInputs parameters document = .ok checked →
    ∃ previous, InputTree.ofJson? document = some (.struct previous) ∧
      synthesizeInputs parameters previous = checked := by
  intro hClaim
  obtain ⟨previous, hPrevious, hSeeded⟩ := hClaim _ _ _ (by decide) distinctNames_switch checkInputs_switch
  have hRead : InputTree.ofJson? switchDocument =
      some (.struct [("level", .number (.ofNat 5)), ("on", .number (.ofNat 1))]) := rfl
  rw [hRead] at hPrevious
  cases hPrevious
  have hOn := congrArg (fun inputs : Inputs => inputs.at? [.key "on"]) hSeeded
  have hFalse : (synthesizeInputs switchParameters
      [("level", .number (.ofNat 5)), ("on", .number (.ofNat 1))]).at? [.key "on"] =
      some (.boolean false) := rfl
  have hTrue : switchInputs.at? [.key "on"] = some (.boolean true) := rfl
  rw [hFalse, hTrue] at hOn
  cases hOn

theorem seeded_switch : checkInputs switchParameters switchDocument = .ok switchInputs ∧
    ∃ previous : Inputs, InputTree.ofJson? switchDocument = some (.struct previous) ∧
      (synthesizeInputs switchParameters previous).at? [.key "on"] = some (.boolean false) ∧
      (synthesizeInputs switchParameters previous).at? [.key "level"] = some (.number (.ofNat 5)) := by
  obtain ⟨previous, hPrevious, hLeaves, -⟩ := synthesizeInputs_of_checkInputs (by decide)
    distinctNames_switch checkInputs_switch
  refine ⟨checkInputs_switch, previous, hPrevious, ?_, ?_⟩
  · refine (hLeaves [.key "on"] .boolean rfl rfl).1 ⟨rfl, fun b hBoolean => ?_⟩
    cases hPrevious
    cases hBoolean
  · refine ((hLeaves [.key "level"] .field rfl rfl).2 ?_).trans rfl
    intro hSpelled
    cases hSpelled.1

end CircuitForm
