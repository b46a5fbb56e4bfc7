import CircuitForm.Input.Literal
import CircuitForm.Proofs.Entries

/-!
# The literal of a tree

Every tree has a literal, with its entries in the same order. It is also the literal that the
tree's JSON form is read as, since a tree has no `null` in it.
-/

namespace CircuitForm

/-- Induction over a tree, with the hypothesis for each item or entry. -/
@[elab_as_elim, induction_eliminator]
theorem InputTree.inductOn {motive : InputTree → Prop} (number : ∀ n, motive (.number n))
    (boolean : ∀ b, motive (.boolean b)) (string : ∀ s, motive (.string s))
    (list : ∀ items, (∀ item ∈ items, motive item) → motive (.list items))
    (struct : ∀ fields, (∀ field ∈ fields, motive field.2) → motive (.struct fields))
    (tree : InputTree) : motive tree :=
  InputTree.rec (motive_1 := motive) (motive_2 := fun items => ∀ item ∈ items, motive item)
    (motive_3 := fun fields => ∀ field ∈ fields, motive field.2) (motive_4 := fun field => motive field.2)
    number boolean string list struct
    (fun _ h => nomatch h)
    (fun _ _ hHead hRest _ h => (List.mem_cons.mp h).elim (fun hSame => hSame ▸ hHead) (hRest _))
    (fun _ h => nomatch h)
    (fun _ _ hHead hRest _ h => (List.mem_cons.mp h).elim (fun hSame => hSame ▸ hHead) (hRest _))
    (fun _ _ h => h) tree

namespace Literal

theorem ofTrees_eq_map (items : List InputTree) : ofTrees items = items.map ofTree := by
  induction items with
  | nil => rfl
  | cons item rest ih => rw [ofTrees, ih, List.map_cons]

theorem ofFields_eq_map (fields : Entries InputTree) :
    ofFields fields = fields.map fun field => (field.1, ofTree field.2) := by
  induction fields with
  | nil => rfl
  | cons field rest ih => rw [ofFields, ih, List.map_cons]

theorem names_ofFields (fields : Entries InputTree) :
    Entries.names (ofFields fields) = fields.names := by
  simp [ofFields_eq_map, Entries.names, Function.comp_def]

theorem lookup_ofFields (fields : Entries InputTree) (name : String) :
    (ofFields fields).lookup name = (fields.lookup name).map ofTree := by
  induction fields with
  | nil => rfl
  | cons field rest ih =>
    obtain ⟨other, tree⟩ := field
    rw [ofFields, List.lookup_cons, List.lookup_cons]
    split <;> simp [ih]

theorem ofJsonAt_toJson (tree : InputTree) (path : Path) :
    ofJsonAt path tree.toJson = .ok (ofTree tree) := by
  induction tree generalizing path with
  | number _ | boolean _ | string _ => rfl
  | list items ih =>
    have hItems : ∀ index, itemsOfJson path index (InputTree.itemsToJson items) = .ok (ofTrees items) := by
      induction items with
      | nil => exact fun _ => rfl
      | cons item rest ihRest =>
        intro index
        rw [List.forall_mem_cons] at ih
        rw [InputTree.itemsToJson, itemsOfJson, ih.1, ihRest ih.2]
        rfl
    rw [InputTree.toJson, ofJsonAt, hItems]
    rfl
  | struct fields ih =>
    have hFields : entriesOfJson path (InputTree.fieldsToJson fields) = .ok (ofFields fields) := by
      induction fields with
      | nil => rfl
      | cons field rest ihRest =>
        rw [List.forall_mem_cons] at ih
        rw [InputTree.fieldsToJson, entriesOfJson, ih.1, ihRest ih.2]
        rfl
    rw [InputTree.toJson, ofJsonAt, hFields]
    rfl

theorem ofJson_toJson (inputs : Inputs) : ofJson (Inputs.toJson inputs) = .ok (.object (ofFields inputs)) :=
  ofJsonAt_toJson (.struct inputs) []

end Literal

end CircuitForm
