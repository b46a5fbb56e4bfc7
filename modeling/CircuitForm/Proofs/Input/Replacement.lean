import CircuitForm.Input.Replacement
import CircuitForm.Proofs.Input.Fits
import CircuitForm.Proofs.Outcome

/-!
# Replacing a node keeps the shape

A replacement succeeds at each path that leads to a node. If the tree fits its descriptor and the
new node fits what is declared at the path, then the tree that is built fits as well.
-/

namespace CircuitForm

namespace InputTree

def setChild : InputTree → Segment → InputTree → InputTree
  | .list items, .index i, new => .list (items.set i new)
  | .struct fields, .key name, new => .struct (Entries.insert name new fields)
  | tree, _, _ => tree

theorem replaceAt_cons_of_child {tree item : InputTree} {segment : Segment}
    (h : tree.child segment = some item) (value : InputTree) (rest : Path) :
    replaceAt value (segment :: rest) tree =
      (replaceAt value rest item).map (tree.setChild segment) := by
  cases tree with
  | list items =>
    cases segment with
    | index i =>
      rw [child] at h
      rw [replaceAt, h]
      rfl
    | key _ => cases h
  | struct fields =>
    cases segment with
    | index _ => cases h
    | key name =>
      rw [child] at h
      rw [replaceAt, h]
      rfl
  | number _ | boolean _ | string _ => cases segment <;> cases h

theorem exists_fault_of_child_eq_none {tree : InputTree} {segment : Segment}
    (h : tree.child segment = none) (value : InputTree) (rest : Path) :
    ∃ fault, replaceAt value (segment :: rest) tree = .error fault := by
  cases tree with
  | list items =>
    cases segment with
    | index i =>
      rw [child] at h
      rw [replaceAt, h]
      exact ⟨_, rfl⟩
    | key _ => simp [replaceAt]
  | struct fields =>
    cases segment with
    | index _ => simp [replaceAt]
    | key name =>
      rw [child] at h
      rw [replaceAt, h]
      exact ⟨_, rfl⟩
  | number _ | boolean _ | string _ => simp [replaceAt]

/-- Below the root a replacement is made in the child that is there, and nowhere else. -/
theorem replaceAt_cons_eq_ok_iff {tree value new : InputTree} {segment : Segment} {rest : Path} :
    replaceAt value (segment :: rest) tree = .ok new ↔
      ∃ item below, tree.child segment = some item ∧ replaceAt value rest item = .ok below ∧
        tree.setChild segment below = new := by
  cases hChild : tree.child segment with
  | none =>
    obtain ⟨fault, hFault⟩ := exists_fault_of_child_eq_none hChild value rest
    simp [hFault]
  | some item =>
    rw [replaceAt_cons_of_child hChild, map_eq_ok_iff]
    simp

theorem exists_replaceAt_of_at? {tree node : InputTree} {path : Path}
    (h : tree.at? path = some node) (value : InputTree) :
    ∃ new, replaceAt value path tree = .ok new := by
  induction path generalizing tree with
  | nil => exact ⟨value, by rw [replaceAt]⟩
  | cons segment rest ih =>
    rw [at?_cons] at h
    obtain ⟨item, hItem, hNode⟩ := Option.bind_eq_some_iff.mp h
    obtain ⟨new, hNew⟩ := ih hNode
    exact ⟨tree.setChild segment new, by rw [replaceAt_cons_of_child hItem, hNew]; rfl⟩

theorem setChild_self {tree item : InputTree} {segment : Segment} (h : tree.child segment = some item) :
    tree.setChild segment item = tree := by
  cases tree with
  | list items =>
    cases segment with
    | index i =>
      obtain ⟨hIndex, hItem⟩ := List.getElem?_eq_some_iff.mp h
      rw [setChild, ← hItem, List.set_getElem_self]
    | key _ => cases h
  | struct fields =>
    cases segment with
    | index _ => cases h
    | key name => rw [setChild, Entries.insert_of_lookup h]
  | number _ | boolean _ | string _ => cases segment <;> cases h

theorem replaceAt_self {tree node : InputTree} {path : Path} (h : tree.at? path = some node) :
    replaceAt node path tree = .ok tree := by
  induction path generalizing tree with
  | nil =>
    cases h
    rw [replaceAt]
  | cons segment rest ih =>
    rw [at?_cons] at h
    obtain ⟨item, hItem, hNode⟩ := Option.bind_eq_some_iff.mp h
    rw [replaceAt_cons_of_child hItem, ih hNode, Except.map, setChild_self hItem]

theorem Fits.setChild {tree new : InputTree} {type declared : Descriptor} {segment : Segment}
    (h : tree.Fits type) (hType : type.child segment = some declared) (hNew : new.Fits declared) :
    (tree.setChild segment new).Fits type := by
  cases type with
  | field | boolean | string _ | integer _ _ => cases segment <;> cases hType
  | array length element =>
    obtain ⟨items, rfl, hLength, hItems⟩ := h.exists_list_of_array
    cases segment with
    | key _ => cases hType
    | index i =>
      rw [Descriptor.child, Option.ite_none_right_eq_some] at hType
      obtain ⟨-, ⟨⟩⟩ := hType
      refine ⟨by rw [List.length_set, hLength], fun item hItem => ?_⟩
      rcases List.mem_or_eq_of_mem_set hItem with hOld | rfl
      · exact hItems item hOld
      · exact hNew
  | tuple elements =>
    obtain ⟨items, rfl, hItems⟩ := h.exists_list_of_tuple
    cases segment with
    | key _ => cases hType
    | index i => exact fits_tuple_iff.mpr (Entries.forall₂_set hItems hType hNew)
  | struct path fields =>
    obtain ⟨entries, rfl, hEntries⟩ := h.exists_struct
    cases segment with
    | index _ => cases hType
    | key name => exact fits_struct_iff.mpr (hEntries.insert hType hNew)

theorem Fits.replaceAt {tree value new : InputTree} {type declared : Descriptor} {path : Path}
    (h : tree.Fits type) (hType : type.at? path = some declared) (hValue : value.Fits declared)
    (hNew : replaceAt value path tree = .ok new) : new.Fits type := by
  induction path generalizing tree type new with
  | nil =>
    rw [InputTree.replaceAt] at hNew
    cases hNew
    cases hType
    exact hValue
  | cons segment rest ih =>
    rw [Descriptor.at?_cons] at hType
    obtain ⟨childType, hChildType, hRest⟩ := Option.bind_eq_some_iff.mp hType
    obtain ⟨item, below, hItem, hBelow, rfl⟩ := replaceAt_cons_eq_ok_iff.mp hNew
    have hChild := h.child_rel segment
    rw [hChildType, hItem] at hChild
    cases hChild with
    | some hFits => exact h.setChild hChildType (ih hFits hRest hBelow)

end InputTree

namespace Inputs

/-- The inputs are treated as one struct, in which the empty path addresses no input. -/
theorem replace_eq_ok_iff {inputs new : Inputs} {path : Path} {value : InputTree} :
    inputs.replace path value = .ok new ↔
      path ≠ [] ∧ InputTree.replaceAt value path (.struct inputs) = .ok (.struct new) := by
  rw [replace, mapError_eq_ok_iff]
  cases path with
  | nil => simp [replaceAt]
  | cons segment rest =>
    cases segment with
    | index i => simp [replaceAt, InputTree.replaceAt_cons_eq_ok_iff, InputTree.child]
    | key name =>
      rw [replaceAt, InputTree.replaceAt_cons_eq_ok_iff, InputTree.child]
      cases inputs.lookup name with
      | none => simp
      | some tree => simp [map_eq_ok_iff, InputTree.setChild]

theorem exists_replace {inputs : Inputs} {path : Path} {node : InputTree}
    (h : inputs.at? path = some node) (value : InputTree) :
    ∃ new, inputs.replace path value = .ok new := by
  cases path with
  | nil => cases h
  | cons segment rest =>
    obtain ⟨tree, hTree⟩ := InputTree.exists_replaceAt_of_at? (at?_cons inputs segment rest ▸ h) value
    obtain ⟨item, below, hItem, hBelow, rfl⟩ := InputTree.replaceAt_cons_eq_ok_iff.mp hTree
    cases segment with
    | index _ => cases hItem
    | key name => exact ⟨_, replace_eq_ok_iff.mpr ⟨List.cons_ne_nil _ _, hTree⟩⟩

/-- A node put where it stands already changes nothing. -/
theorem replace_self {inputs : Inputs} {path : Path} {node : InputTree} (h : inputs.at? path = some node) :
    inputs.replace path node = .ok inputs := by
  cases path with
  | nil => cases h
  | cons segment rest =>
    have hTree := InputTree.replaceAt_self (at?_cons inputs segment rest ▸ h)
    exact replace_eq_ok_iff.mpr ⟨List.cons_ne_nil _ _, hTree⟩

theorem Fit.replace {inputs new : Inputs} {parameters : List Parameter} (h : inputs.Fit parameters)
    {path : Path} {type : Descriptor} (hType : typeAt parameters path = some type)
    {value : InputTree} (hValue : value.Fits type) (hNew : inputs.replace path value = .ok new) :
    new.Fit parameters := by
  obtain ⟨hPath, hTree⟩ := replace_eq_ok_iff.mp hNew
  obtain ⟨segment, rest, rfl⟩ := List.exists_cons_of_ne_nil hPath
  rw [Descriptor.typeAt_cons] at hType
  exact fit_iff.mpr ((fit_iff.mp h).replaceAt hType hValue hTree)

/-- A declared node of inputs that fit can be replaced by whatever fits there. -/
theorem Fit.exists_replace {inputs : Inputs} {parameters : List Parameter} (h : inputs.Fit parameters)
    {path : Path} {type : Descriptor} (hType : typeAt parameters path = some type)
    {value : InputTree} (hValue : value.Fits type) :
    ∃ new, inputs.replace path value = .ok new ∧ new.Fit parameters := by
  obtain ⟨node, hNode, -⟩ := h.exists_at? hType
  obtain ⟨new, hNew⟩ := Inputs.exists_replace hNode value
  exact ⟨new, hNew, h.replace hType hValue hNew⟩

end Inputs

end CircuitForm
