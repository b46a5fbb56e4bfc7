import CircuitForm.Proofs.Input.Coercion

/-!
# Coercion node by node

A literal has nodes as a tree has. A literal that is coerced has one exactly where the descriptor
declares one, and each of its nodes becomes the node of the tree at the same path.
-/

namespace CircuitForm

namespace Literal

def child : Literal → Segment → Option Literal
  | .array items, .index i => items[i]?
  | .object entries, .key name => entries.lookup name
  | _, _ => none

def at? (literal : Literal) (path : Path) : Option Literal :=
  path.foldlM child literal

theorem at?_cons (literal : Literal) (segment : Segment) (rest : Path) :
    literal.at? (segment :: rest) = (literal.child segment).bind (·.at? rest) := rfl

theorem child_ofTree (tree : InputTree) (segment : Segment) :
    (ofTree tree).child segment = (tree.child segment).map ofTree := by
  cases tree with
  | number _ | boolean _ | string _ => rfl
  | list items =>
    cases segment with
    | key _ => rfl
    | index i => rw [ofTree, child, InputTree.child, ofTrees_eq_map, List.getElem?_map]
  | struct fields =>
    cases segment with
    | index _ => rfl
    | key name => rw [ofTree, child, InputTree.child, lookup_ofFields]

theorem at?_ofTree (tree : InputTree) (path : Path) :
    (ofTree tree).at? path = (tree.at? path).map ofTree := by
  induction path generalizing tree with
  | nil => rfl
  | cons segment rest ih =>
    rw [at?_cons, InputTree.at?_cons, child_ofTree]
    cases tree.child segment with
    | none => rfl
    | some below => exact ih below

end Literal

namespace Coerces

variable {type : Descriptor} {literal : Literal} {tree : InputTree}

theorem getElem?_rel_of_zip {types : List Descriptor} {items : List Literal} {trees : List InputTree}
    (hLength : items.length = types.length)
    (h : List.Forall₂ (fun tree pair => Coerces pair.1 pair.2 tree) trees (types.zip items)) (i : Nat) :
    Option.Rel (fun below declared => ∃ item, trees[i]? = some item ∧ Coerces declared below item)
      items[i]? types[i]? := by
  have hItem := Entries.getElem?_rel_of_forall₂ h i
  by_cases hIndex : i < types.length
  · have hType : types[i]? = some types[i] := List.getElem?_eq_getElem hIndex
    have hBelow : items[i]? = some items[i] := List.getElem?_eq_getElem (by omega)
    have hPair : (types.zip items)[i]? = some (types[i], items[i]) :=
      List.getElem?_zip_eq_some.mpr ⟨hType, hBelow⟩
    rw [hPair] at hItem
    rw [hType, hBelow]
    generalize trees[i]? = found at hItem ⊢
    cases hItem with
    | @some item _ hCoerces => exact .some ⟨item, rfl, hCoerces⟩
  · rw [List.getElem?_eq_none (l := items) (by omega), List.getElem?_eq_none (l := types) (by omega)]
    exact .none

theorem lookup_rel_of_fields {fields : Entries Descriptor} {entries : Entries Literal}
    {trees : Entries InputTree} (hSet : ∀ name, name ∈ fields.names ↔ name ∈ entries.names)
    (h : List.Forall₂ (fun entry field => entry.1 = field.1 ∧
      ∃ literal, entries.lookup field.1 = some literal ∧ Coerces field.2 literal entry.2) trees fields)
    (name : String) :
    Option.Rel (fun below declared => ∃ item, trees.lookup name = some item ∧ Coerces declared below item)
      (entries.lookup name) (fields.lookup name) := by
  have hEntry := Entries.lookup_rel_of_forall₂ (R := fun name tree type =>
    ∃ literal, entries.lookup name = some literal ∧ Coerces type literal tree) h name
  cases hType : fields.lookup name with
  | none =>
    have hUndeclared := Entries.lookup_eq_none_iff.mp hType
    rw [Entries.lookup_eq_none_iff.mpr fun hMember => hUndeclared ((hSet name).mpr hMember)]
    exact .none
  | some type =>
    rw [hType] at hEntry
    generalize trees.lookup name = found at hEntry ⊢
    cases hEntry with
    | @some item _ hCoerces =>
      obtain ⟨below, hBelow, hItem⟩ := hCoerces
      rw [hBelow]
      exact .some ⟨item, rfl, hItem⟩

theorem child_rel (hNames : type.DistinctNames) (h : Coerces type literal tree) (segment : Segment) :
    Option.Rel (fun below declared => ∃ item, tree.child segment = some item ∧ Coerces declared below item)
      (literal.child segment) (type.child segment) := by
  cases type with
  | field | boolean | string _ | integer _ _ =>
    have hScalar := scalarOf_of_coerces rfl h
    cases literal with
    | number _ | boolean _ | string _ => cases segment <;> exact .none
    | array _ | object _ => simp [scalarOf, booleanOf?] at hScalar
  | array length element =>
    obtain ⟨items, trees, rfl, rfl, rfl, hItems⟩ := exists_list_of_coerces_array h
    cases segment with
    | key _ => exact .none
    | index i =>
      have hItem := Entries.getElem?_rel_of_forall₂ hItems i
      rw [Literal.child, Descriptor.child, InputTree.child]
      by_cases hIndex : i < items.length
      · have hBelow : items[i]? = some items[i] := List.getElem?_eq_getElem hIndex
        rw [hBelow] at hItem ⊢
        rw [if_pos hIndex]
        generalize trees[i]? = found at hItem ⊢
        cases hItem with
        | @some item _ hCoerces => exact .some ⟨item, rfl, hCoerces⟩
      · rw [if_neg hIndex, List.getElem?_eq_none (Nat.le_of_not_lt hIndex)]
        exact .none
  | tuple elements =>
    obtain ⟨items, trees, rfl, rfl, hLength, hItems⟩ := exists_list_of_coerces_tuple h
    cases segment with
    | key _ => exact .none
    | index i => exact getElem?_rel_of_zip hLength hItems i
  | struct declared fields =>
    have hDistinct := (Descriptor.distinctNames_struct_iff.mp hNames).1
    obtain ⟨entries, trees, rfl, rfl, hSet, hTrees⟩ := exists_struct_of_coerces hDistinct h
    cases segment with
    | index _ => exact .none
    | key name => exact lookup_rel_of_fields hSet hTrees name

theorem at?_rel (hNames : type.DistinctNames) (h : Coerces type literal tree) (path : Path) :
    Option.Rel (fun below declared => ∃ item, tree.at? path = some item ∧ Coerces declared below item)
      (literal.at? path) (type.at? path) := by
  induction path generalizing type literal tree with
  | nil => exact .some ⟨tree, rfl, h⟩
  | cons segment rest ih =>
    rw [Literal.at?_cons, Descriptor.at?_cons, InputTree.at?_cons]
    have hChild := h.child_rel hNames segment
    generalize hType : type.child segment = declared, literal.child segment = below at hChild ⊢
    cases hChild with
    | none => exact .none
    | some hBelow =>
      obtain ⟨item, hItem, hCoerces⟩ := hBelow
      rw [hItem]
      exact ih (hNames.child hType) hCoerces

end Coerces

end CircuitForm
