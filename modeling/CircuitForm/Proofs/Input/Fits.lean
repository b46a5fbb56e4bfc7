import CircuitForm.Input.Synthesis
import CircuitForm.Proofs.Descriptor.DistinctNames
import CircuitForm.Proofs.Entries

/-!
# Trees that fit a descriptor

A tree fits when it has the shape of the descriptor at every level, with the declared names in
the declared order, and each leaf is valid for its type. The nodes of a tree that fits stand at
the very paths that the descriptor declares.
-/

namespace CircuitForm

namespace InputTree

mutual

def Fits : InputTree → Descriptor → Prop
  | .number _, .field => True
  | .number _, .integer .signed _ => True
  | .number n, .integer .unsigned _ => n.isNegative = false
  | .boolean _, .boolean => True
  | .string s, .string length => s.length = length
  | .list items, .array length element => items.length = length ∧ ∀ item ∈ items, Fits item element
  | .list items, .tuple elements => FitEach items elements
  | .struct entries, .struct _ fields => FitFields entries fields
  | _, _ => False

def FitEach : List InputTree → List Descriptor → Prop
  | [], [] => True
  | item :: items, element :: elements => Fits item element ∧ FitEach items elements
  | _, _ => False

def FitFields : List (String × InputTree) → List (String × Descriptor) → Prop
  | [], [] => True
  | (name, tree) :: entries, (declared, type) :: fields =>
    (name = declared ∧ Fits tree type) ∧ FitFields entries fields
  | _, _ => False

end

theorem fits_tuple_iff {items : List InputTree} {elements : List Descriptor} :
    (list items).Fits (.tuple elements) ↔ List.Forall₂ Fits items elements := by
  rw [Fits]
  induction elements generalizing items with
  | nil => cases items <;> simp [FitEach]
  | cons element rest ih => cases items <;> simp [FitEach, ih]

theorem fits_struct_iff {entries : Entries InputTree} {path : String} {fields : Entries Descriptor} :
    (struct entries).Fits (.struct path fields) ↔ Entries.Aligned Fits entries fields := by
  rw [Fits, Entries.Aligned]
  induction fields generalizing entries with
  | nil => cases entries <;> simp [FitFields]
  | cons field rest ih => cases entries <;> simp [FitFields, ih]

theorem Fits.exists_list_of_array {tree : InputTree} {length : Nat} {element : Descriptor}
    (h : tree.Fits (.array length element)) :
    ∃ items, tree = .list items ∧ items.length = length ∧ ∀ item ∈ items, item.Fits element := by
  cases tree with
  | list items => exact ⟨items, rfl, by simpa [Fits] using h⟩
  | number _ | boolean _ | string _ | struct _ => simp [Fits] at h

theorem Fits.exists_list_of_tuple {tree : InputTree} {elements : List Descriptor}
    (h : tree.Fits (.tuple elements)) :
    ∃ items, tree = .list items ∧ List.Forall₂ Fits items elements := by
  cases tree with
  | list items => exact ⟨items, rfl, fits_tuple_iff.mp h⟩
  | number _ | boolean _ | string _ | struct _ => simp [Fits] at h

theorem Fits.exists_struct {tree : InputTree} {path : String} {fields : Entries Descriptor}
    (h : tree.Fits (.struct path fields)) :
    ∃ entries, tree = .struct entries ∧ Entries.Aligned Fits entries fields := by
  cases tree with
  | struct entries => exact ⟨entries, rfl, fits_struct_iff.mp h⟩
  | number _ | boolean _ | string _ | list _ => simp [Fits] at h

theorem carries_iff_fits {type : Descriptor} (hScalar : type.isScalar = true) (tree : InputTree) :
    carries type tree = true ↔ tree.Fits type := by
  cases type with
  | field | boolean | string _ => cases tree <;> simp [carries, Fits]
  | integer sign _ => cases sign <;> cases tree <;> simp [carries, Fits]
  | array _ _ | tuple _ | struct _ _ => cases hScalar

theorem fits_scalarDefault {type : Descriptor} (hScalar : type.isScalar = true) :
    (scalarDefault type).Fits type := by
  cases type with
  | field | boolean | string _ => simp [scalarDefault, Fits, zero]
  | integer sign _ => cases sign <;> simp [scalarDefault, Fits, zero, Numeral.zero, Numeral.ofNat, Numeral.isNegative]
  | array _ _ | tuple _ | struct _ _ => cases hScalar

theorem at?_cons (tree : InputTree) (segment : Segment) (rest : Path) :
    tree.at? (segment :: rest) = (tree.child segment).bind (·.at? rest) := rfl

theorem Fits.child_rel {tree : InputTree} {type : Descriptor} (h : tree.Fits type)
    (segment : Segment) : Option.Rel Fits (tree.child segment) (type.child segment) := by
  cases type with
  | field | boolean | string _ | integer _ _ =>
    have hNode : tree.child segment = none := by cases tree <;> simp [Fits, child] at h ⊢
    rw [hNode]
    exact .none
  | array length element =>
    obtain ⟨items, rfl, hLength, hItems⟩ := h.exists_list_of_array
    cases segment with
    | key _ => exact .none
    | index i =>
      by_cases hIndex : i < length
      · have hItem : i < items.length := hLength ▸ hIndex
        rw [child, Descriptor.child, if_pos hIndex, List.getElem?_eq_getElem hItem]
        exact .some (hItems _ (List.getElem_mem hItem))
      · rw [child, Descriptor.child, if_neg hIndex, List.getElem?_eq_none (by omega)]
        exact .none
  | tuple elements =>
    obtain ⟨items, rfl, hItems⟩ := h.exists_list_of_tuple
    cases segment with
    | key _ => exact .none
    | index i => exact Entries.getElem?_rel_of_forall₂ hItems i
  | struct path fields =>
    obtain ⟨entries, rfl, hEntries⟩ := h.exists_struct
    cases segment with
    | index _ => exact .none
    | key name => exact hEntries.lookup_rel name

theorem Fits.at?_rel {tree : InputTree} {type : Descriptor} (h : tree.Fits type) (path : Path) :
    Option.Rel Fits (tree.at? path) (type.at? path) := by
  induction path generalizing tree type with
  | nil => exact .some h
  | cons segment rest ih =>
    rw [at?_cons, Descriptor.at?_cons]
    have hChild := h.child_rel segment
    generalize tree.child segment = node, type.child segment = declared at hChild ⊢
    cases hChild with
    | none => exact .none
    | some hNode => exact ih hNode

theorem Fits.exists_at?_iff {tree : InputTree} {type : Descriptor} (h : tree.Fits type) (path : Path) :
    (∃ node, tree.at? path = some node) ↔ ∃ declared, type.at? path = some declared := by
  have hNode := h.at?_rel path
  generalize tree.at? path = found, type.at? path = declared at hNode ⊢
  cases hNode <;> simp

/-- What a descriptor declares at a path is there in a tree that fits. -/
theorem Fits.exists_at? {tree : InputTree} {type : Descriptor} (h : tree.Fits type) {path : Path}
    {declared : Descriptor} (hType : type.at? path = some declared) :
    ∃ node, tree.at? path = some node ∧ node.Fits declared := by
  have hNode := h.at?_rel path
  rw [hType] at hNode
  generalize tree.at? path = found at hNode ⊢
  cases hNode with
  | some hFits => exact ⟨_, rfl, hFits⟩

/-- Where a struct is declared there are entries under its names, in the declared order. -/
theorem Fits.exists_entries {tree : InputTree} {type : Descriptor} (h : tree.Fits type) {path : Path}
    {declared : String} {fields : Entries Descriptor} (hType : type.at? path = some (.struct declared fields)) :
    ∃ entries, tree.at? path = some (.struct entries) ∧ Entries.names entries = fields.names := by
  obtain ⟨node, hNode, hFits⟩ := h.exists_at? hType
  obtain ⟨entries, rfl, hEntries⟩ := hFits.exists_struct
  exact ⟨entries, hNode, hEntries.names_eq⟩

end InputTree

/-- The inputs have an entry for each parameter, in the declared order, and its tree fits. -/
def Inputs.Fit (inputs : Inputs) (parameters : List Parameter) : Prop :=
  List.Forall₂ (fun entry parameter => entry.1 = parameter.name ∧ entry.2.Fits parameter.type)
    inputs parameters

namespace Inputs

theorem fit_iff {inputs : Inputs} {parameters : List Parameter} :
    inputs.Fit parameters ↔ (InputTree.struct inputs).Fits (.ofParameters parameters) := by
  rw [Descriptor.ofParameters, InputTree.fits_struct_iff, Entries.Aligned,
    List.forall₂_map_right_iff, Fit]

theorem at?_cons (inputs : Inputs) (segment : Segment) (rest : Path) :
    inputs.at? (segment :: rest) = (InputTree.struct inputs).at? (segment :: rest) := by
  cases segment with
  | index i => rfl
  | key name =>
    rw [InputTree.at?_cons, InputTree.child, at?]
    cases inputs.lookup name <;> rfl

theorem Fit.at?_rel {inputs : Inputs} {parameters : List Parameter} (h : inputs.Fit parameters)
    (path : Path) : Option.Rel InputTree.Fits (inputs.at? path) (typeAt parameters path) := by
  cases path with
  | nil => exact .none
  | cons segment rest =>
    rw [at?_cons, Descriptor.typeAt_cons]
    exact (fit_iff.mp h).at?_rel (segment :: rest)

theorem Fit.exists_at? {inputs : Inputs} {parameters : List Parameter} (h : inputs.Fit parameters)
    {path : Path} {type : Descriptor} (hType : typeAt parameters path = some type) :
    ∃ node, inputs.at? path = some node ∧ node.Fits type := by
  have hNode := h.at?_rel path
  rw [hType] at hNode
  generalize inputs.at? path = found at hNode ⊢
  cases hNode with
  | some hFits => exact ⟨_, rfl, hFits⟩

end Inputs

end CircuitForm
