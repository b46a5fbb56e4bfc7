import CircuitForm.Proofs.Descriptor.Nesting
import CircuitForm.Proofs.Input.Descent
import CircuitForm.Proofs.Json.Forms

/-!
# Trees as texts

A tree is printed as a value without `null`, and read back from it. What a check accepts nests no
deeper than the descriptor and has no names but the declared ones, so it is printed as a text
that can be read back.
-/

namespace CircuitForm

namespace InputTree

theorem itemsToJson_eq_map (items : List InputTree) : itemsToJson items = items.map toJson := by
  induction items with
  | nil => rfl
  | cons item rest ih => rw [itemsToJson, ih, List.map_cons]

theorem fieldsToJson_eq_map (fields : Entries InputTree) :
    fieldsToJson fields = fields.map fun field => (field.1, toJson field.2) := by
  induction fields with
  | nil => rfl
  | cons field rest ih => rw [fieldsToJson, ih, List.map_cons]

theorem names_fieldsToJson (fields : Entries InputTree) :
    Entries.names (fieldsToJson fields) = fields.names := by
  simp [fieldsToJson_eq_map, Entries.names, Function.comp_def]

theorem ofJson?_toJson (tree : InputTree) : ofJson? tree.toJson = some tree := by
  induction tree with
  | number _ | boolean _ | string _ => rfl
  | list items ih =>
    have hItems : itemsOfJson? (itemsToJson items) = some items := by
      induction items with
      | nil => rfl
      | cons item rest ihRest =>
        rw [List.forall_mem_cons] at ih
        rw [itemsToJson, itemsOfJson?, ih.1, ihRest ih.2]
        rfl
    rw [toJson, ofJson?, hItems, Option.map_some]
  | struct fields ih =>
    have hFields : fieldsOfJson? (fieldsToJson fields) = some fields := by
      induction fields with
      | nil => rfl
      | cons field rest ihRest =>
        rw [List.forall_mem_cons] at ih
        rw [fieldsToJson, fieldsOfJson?, ih.1, ihRest ih.2]
        rfl
    rw [toJson, ofJson?, hFields, Option.map_some]

theorem itemsOfJson?_cons_eq_some_iff {item : Json} {rest : List Json} {trees : List InputTree} :
    itemsOfJson? (item :: rest) = some trees ↔
      ∃ tree, ofJson? item = some tree ∧ ∃ more, itemsOfJson? rest = some more ∧ tree :: more = trees := by
  simp [itemsOfJson?, Option.bind_eq_some_iff]

theorem fieldsOfJson?_cons_eq_some_iff {member : String × Json} {rest : Entries Json} {fields : Entries InputTree} :
    fieldsOfJson? (member :: rest) = some fields ↔ ∃ tree, ofJson? member.2 = some tree ∧
      ∃ more, fieldsOfJson? rest = some more ∧ (member.1, tree) :: more = fields := by
  obtain ⟨name, item⟩ := member
  simp [fieldsOfJson?, Option.bind_eq_some_iff]

theorem toJson_of_ofJson? {json : Json} {tree : InputTree} (h : ofJson? json = some tree) : tree.toJson = json := by
  induction json generalizing tree with
  | null => cases h
  | bool _ | number _ | string _ =>
    cases h
    rfl
  | array items ih =>
    rw [ofJson?, Option.map_eq_some_iff] at h
    obtain ⟨trees, hTrees, rfl⟩ := h
    rw [toJson, Json.array.injEq]
    induction items generalizing trees with
    | nil =>
      cases hTrees
      rfl
    | cons item rest ihRest =>
      rw [List.forall_mem_cons] at ih
      obtain ⟨first, hFirst, more, hMore, rfl⟩ := itemsOfJson?_cons_eq_some_iff.mp hTrees
      rw [itemsToJson, ih.1 hFirst, ihRest ih.2 more hMore]
  | object members ih =>
    rw [ofJson?, Option.map_eq_some_iff] at h
    obtain ⟨fields, hFields, rfl⟩ := h
    rw [toJson, Json.object.injEq]
    induction members generalizing fields with
    | nil =>
      cases hFields
      rfl
    | cons member rest ihRest =>
      rw [List.forall_mem_cons] at ih
      obtain ⟨first, hFirst, more, hMore, rfl⟩ := fieldsOfJson?_cons_eq_some_iff.mp hFields
      rw [fieldsToJson, ih.1 hFirst, ihRest ih.2 more hMore]

/-- In no struct at any level does a name come twice. -/
def DistinctNames (tree : InputTree) : Prop :=
  ∀ path fields, tree.at? path = some (.struct fields) → Entries.Distinct fields

theorem DistinctNames.child {tree below : InputTree} (h : tree.DistinctNames) {segment : Segment}
    (hBelow : tree.child segment = some below) : below.DistinctNames := by
  intro path fields hFields
  refine h (segment :: path) fields ?_
  rw [at?_cons, hBelow]
  exact hFields

end InputTree

theorem depth_ne_zero_of_coerces {type : Descriptor} {tree accepted : InputTree}
    (h : Coerces type (.ofTree tree) accepted) (hDepth : tree.toJson.depth ≠ 0) : type.depth ≠ 0 := by
  intro hType
  have hAccepted := scalarOf_of_coerces (Descriptor.depth_eq_zero_iff.mp hType) h
  cases tree with
  | number _ | boolean _ | string _ => exact hDepth rfl
  | list _ | struct _ => cases type <;> simp [scalarOf, booleanOf?, Literal.ofTree] at hAccepted

/-- What is accepted nests no deeper than the descriptor, and its names are the declared ones. -/
theorem plain_toJson_of_coerces {type : Descriptor} (hNames : type.DistinctNames)
    (hUnreserved : type.Unreserved) {tree accepted : InputTree} (hDistinct : tree.DistinctNames)
    (h : Coerces type (.ofTree tree) accepted) :
    tree.toJson.depth ≤ type.depth ∧ tree.toJson.Plain := by
  induction type using Descriptor.inductOnChild generalizing tree accepted with
  | step type ih =>
    have hChild : ∀ segment below, tree.child segment = some below →
        segment ≠ .key Json.reservedKey ∧ below.toJson.depth < type.depth ∧ below.toJson.Plain := by
      intro segment below hBelow
      have hNode := h.child_rel hNames segment
      rw [Literal.child_ofTree, hBelow, Option.map_some] at hNode
      generalize hType : type.child segment = declared at hNode
      cases hNode with
      | @some _ declared hItem =>
        obtain ⟨item, -, hCoerces⟩ := hItem
        obtain ⟨hName, hDeclared⟩ := hUnreserved.child hType
        obtain ⟨hDepth, hPlain⟩ := ih segment declared hType (hNames.child hType) hDeclared
          (hDistinct.child hBelow) hCoerces
        exact ⟨hName, Nat.lt_of_le_of_lt hDepth (Descriptor.depth_lt_of_child hType), hPlain⟩
    cases tree with
    | number _ | boolean _ | string _ => exact ⟨Nat.zero_le _, trivial⟩
    | list items =>
      obtain ⟨d, hType⟩ := Nat.exists_eq_succ_of_ne_zero (depth_ne_zero_of_coerces h (Nat.succ_ne_zero _))
      have hItem : ∀ item ∈ items, item.toJson.depth ≤ d ∧ item.toJson.Plain := by
        intro item hMember
        obtain ⟨i, hIndex, rfl⟩ := List.getElem_of_mem hMember
        obtain ⟨-, hDepth, hPlain⟩ := hChild (.index i) _ (List.getElem?_eq_getElem hIndex)
        exact ⟨Nat.le_of_lt_succ (hType ▸ hDepth), hPlain⟩
      rw [InputTree.toJson, InputTree.itemsToJson_eq_map, hType, Json.depth_array_le_iff, Json.plain_array_iff,
        List.forall_mem_map, List.forall_mem_map]
      exact ⟨fun item hMember => (hItem item hMember).1, fun item hMember => (hItem item hMember).2⟩
    | struct fields =>
      obtain ⟨d, hType⟩ := Nat.exists_eq_succ_of_ne_zero (depth_ne_zero_of_coerces h (Nat.succ_ne_zero _))
      have hFields : Entries.Distinct fields := hDistinct [] fields rfl
      have hField : ∀ field ∈ fields, field.1 ≠ Json.reservedKey ∧ field.2.toJson.depth ≤ d ∧
          field.2.toJson.Plain := by
        intro field hMember
        obtain ⟨hName, hDepth, hPlain⟩ := hChild (.key field.1) field.2 (Entries.lookup_of_mem hFields hMember)
        exact ⟨fun hSame => hName (congrArg Segment.key hSame), Nat.le_of_lt_succ (hType ▸ hDepth), hPlain⟩
      have hFirst : (Entries.names fields).head? ≠ some Json.reservedKey := by
        intro hHead
        obtain ⟨field, hMember, hName⟩ := List.mem_map.mp (List.mem_of_mem_head? hHead)
        exact (hField field hMember).1 hName
      rw [InputTree.toJson, hType, Json.depth_object_le_iff, Json.plain_object_iff, Entries.Distinct,
        InputTree.names_fieldsToJson, InputTree.fieldsToJson_eq_map, List.forall_mem_map, List.forall_mem_map]
      exact ⟨fun field hMember => (hField field hMember).2.1, hFields, hFirst,
        fun field hMember => (hField field hMember).2.2⟩

open Json (Delimited Form)

theorem InputTree.decoder_text (form : Form) (level : Nat) {tree : InputTree} {depth : Nat}
    (hDepth : tree.toJson.depth ≤ depth) (hPlain : tree.toJson.Plain) {rest : Bytes}
    (hRest : Delimited rest) :
    InputTree.decoder depth (form.text level tree.toJson ++ rest) = .ok (tree, rest) := by
  refine bind_eq_ok_iff.mpr ⟨_, form.value_text level hDepth (fun _ => hPlain) hRest, ?_⟩
  dsimp only
  rw [ofJson?_toJson]

theorem InputTree.decoder_append {pad : Bytes} (hPad : Json.Blank pad) (depth : Nat) (text : Bytes) :
    InputTree.decoder depth (pad ++ text) = InputTree.decoder depth text := by
  rw [decoder, decoder, Json.value_append hPad]

theorem Inputs.decoder_text (form : Form) (level : Nat) {inputs : Inputs} {depth : Nat}
    (hDepth : inputs.toJson.depth ≤ depth) (hDistinct : Entries.Distinct inputs)
    (hPlain : ∀ entry ∈ inputs, entry.2.toJson.Plain) (rest : Bytes) :
    Inputs.decoder depth (form.text level inputs.toJson ++ rest) = .ok (inputs, rest) := by
  cases depth with
  | zero => cases hDepth
  | succ depth =>
    obtain ⟨close, hClose, hText⟩ := form.text_object level (InputTree.fieldsToJson inputs)
    rw [toJson, InputTree.fieldsToJson_eq_map, Json.depth_object_le_iff, List.forall_mem_map] at hDepth
    have hEntry : ∀ entry ∈ inputs, ∀ rest, Delimited rest →
        InputTree.decoder depth (form.gap ++ (form.text (level + 1) entry.2.toJson ++ rest)) =
          .ok (entry.2, rest) := by
      intro entry hMember rest hRest
      rw [InputTree.decoder_append form.blank_gap]
      exact InputTree.decoder_text form (level + 1) (hDepth entry hMember) (hPlain entry hMember) hRest
    have hRead := Json.Decoder.map_row (fun tree => form.text (level + 1) tree.toJson)
      (form.blank_line (level + 1)) hClose hDistinct hEntry rest
    rw [toJson, hText, InputTree.fieldsToJson_eq_map, Json.row_map, List.cons_append, List.append_assoc,
      List.append_assoc]
    exact hRead

end CircuitForm
