import CircuitForm.Descriptor.Nested
import CircuitForm.Proofs.Input.Failing
import CircuitForm.Proofs.Path.Display

/-!
# The nodes below a node, listed

The listing has each path that leads to a declared node below, once and in one order: a node comes
before those in it, and the parts of a node in the order of their declaration. All of them have a
spelling if the fields have names that can be spelled and there are no more parts than words count.
-/

namespace CircuitForm.Descriptor

/-- What is declared one step below, in order. -/
def children : Descriptor → List (Segment × Descriptor)
  | .array length element => (List.range length).map fun i => (.index i, element)
  | .tuple elements => elements.zipIdx.map fun (element, i) => (.index i, element)
  | .struct _ fields => fields.map fun (name, type) => (.key name, type)
  | .field | .boolean | .string _ | .integer _ _ => []

variable {type : Descriptor}

theorem mem_children_iff (hNames : type.DistinctNames) {segment : Segment} {declared : Descriptor} :
    (segment, declared) ∈ type.children ↔ type.child segment = some declared := by
  cases type with
  | field | boolean | string _ | integer _ _ => simp [children, child]
  | array length element =>
    cases segment with
    | key _ => simp [children, child]
    | index i => simp [children, child, List.mem_range]
  | tuple elements =>
    cases segment with
    | key _ => simp [children, child]
    | index i => simp [children, child, List.mem_zipIdx_iff_getElem?]
  | struct path fields =>
    cases segment with
    | index _ => simp [children, child]
    | key name =>
      have hDistinct : Entries.Distinct fields := (distinctNames_struct_iff.mp hNames).1
      rw [children, child, List.mem_map]
      constructor
      · rintro ⟨field, hField, ⟨⟩⟩
        exact Entries.lookup_of_mem hDistinct hField
      · intro hDeclared
        exact ⟨(name, declared), Entries.mem_of_lookup hDeclared, rfl⟩

theorem pairwise_children (hNames : type.DistinctNames) :
    type.children.Pairwise fun part later => type.position part.1 < type.position later.1 := by
  cases type with
  | field | boolean | string _ | integer _ _ => exact .nil
  | array length element =>
    rw [children, List.pairwise_map]
    exact List.pairwise_lt_range
  | tuple elements =>
    rw [children, List.pairwise_map]
    exact pairwise_snd_zipIdx elements
  | struct path fields =>
    have hDistinct := (distinctNames_struct_iff.mp hNames).1
    have hOrder := List.pairwise_map.mp (Entries.pairwise_idxOf hDistinct)
    rw [children, List.pairwise_map]
    exact hOrder

/-- A part with all that is listed below it. -/
def listPart (path : Path) (part : Segment × Descriptor) : List (Path × Descriptor) :=
  (path.child part.1, part.2) :: part.2.nested (path.child part.1)

theorem nestedElements_eq (elements : List Descriptor) (path : Path) (index : Nat) :
    nestedElements elements path index =
      (elements.zipIdx index).flatMap fun (element, i) => listPart path (.index i, element) := by
  induction elements generalizing index with
  | nil => rfl
  | cons element rest ih =>
    rw [nestedElements, ih, List.zipIdx_cons, List.flatMap_cons]
    rfl

theorem nestedFields_eq (fields : Entries Descriptor) (path : Path) :
    nestedFields fields path = fields.flatMap fun (name, type) => listPart path (.key name, type) := by
  induction fields with
  | nil => rfl
  | cons field rest ih =>
    rw [nestedFields, ih, List.flatMap_cons]
    rfl

theorem nested_eq (type : Descriptor) (path : Path) : type.nested path = type.children.flatMap (listPart path) := by
  cases type with
  | field | boolean | string _ | integer _ _ => rfl
  | array length element => rw [nested, children, List.flatMap_map]; rfl
  | tuple elements => rw [nested, nestedElements_eq, children, List.flatMap_map]
  | struct path' fields => rw [nested, nestedFields_eq, children, List.flatMap_map]

/-- The place of the node goes in front of every path and changes nothing else. -/
theorem nested_join (hNames : type.DistinctNames) (base path : Path) :
    type.nested (base.join path) = (type.nested path).map fun node => (base.join node.1, node.2) := by
  induction type using inductOnChild generalizing path with
  | step type ih =>
    rw [nested_eq, nested_eq, List.map_flatMap]
    refine List.flatMap_congr fun part hPart => ?_
    obtain ⟨segment, declared⟩ := part
    have hDeclared := (mem_children_iff hNames).mp hPart
    have hBelow := ih segment declared hDeclared (hNames.child hDeclared) (path.child segment)
    rw [listPart, listPart, List.map_cons, ← Path.join_child, hBelow]

theorem nested_singleton (hNames : type.DistinctNames) (segment : Segment) :
    type.nested [segment] = (type.nested []).map fun node => (segment :: node.1, node.2) :=
  nested_join hNames [segment] []

/-- Where the listing below the part is that of its nodes, the part is listed as the node it is. -/
theorem mem_listPart_nil_iff (hNames : type.DistinctNames) {declared : Descriptor}
    (hBelow : ∀ rest, (rest, declared) ∈ type.nested [] ↔ rest ≠ [] ∧ type.at? rest = some declared)
    {segment : Segment} {path : Path} :
    (path, declared) ∈ listPart [] (segment, type) ↔
      ∃ rest, path = segment :: rest ∧ type.at? rest = some declared := by
  rw [listPart, List.mem_cons, Path.child, List.nil_append, nested_singleton hNames, List.mem_map]
  constructor
  · rintro (hSame | ⟨⟨rest, _⟩, hRest, ⟨⟩⟩)
    · cases hSame
      exact ⟨[], rfl, rfl⟩
    · exact ⟨rest, rfl, ((hBelow rest).mp hRest).2⟩
  · rintro ⟨rest, rfl, hRest⟩
    cases rest with
    | nil =>
      cases hRest
      exact .inl rfl
    | cons next rest =>
      exact .inr ⟨(next :: rest, declared), (hBelow _).mpr ⟨List.cons_ne_nil next rest, hRest⟩, rfl⟩

theorem mem_nested_nil_iff (hNames : type.DistinctNames) {path : Path} {declared : Descriptor} :
    (path, declared) ∈ type.nested [] ↔ path ≠ [] ∧ type.at? path = some declared := by
  induction type using inductOnChild generalizing path declared with
  | step type ih =>
    rw [nested_eq, List.mem_flatMap]
    constructor
    · rintro ⟨⟨segment, below⟩, hPart, hNode⟩
      have hBelow := (mem_children_iff hNames).mp hPart
      have hNames := hNames.child hBelow
      obtain ⟨rest, rfl, hRest⟩ :=
        (mem_listPart_nil_iff hNames fun _ => ih segment below hBelow hNames).mp hNode
      refine ⟨List.cons_ne_nil segment rest, ?_⟩
      rw [at?_cons, hBelow]
      exact hRest
    · rintro ⟨hPath, hDeclared⟩
      obtain ⟨segment, rest, rfl⟩ := List.exists_cons_of_ne_nil hPath
      rw [at?_cons] at hDeclared
      obtain ⟨below, hBelow, hRest⟩ := Option.bind_eq_some_iff.mp hDeclared
      refine ⟨(segment, below), (mem_children_iff hNames).mpr hBelow, ?_⟩
      have hNames := hNames.child hBelow
      exact (mem_listPart_nil_iff hNames fun _ => ih segment below hBelow hNames).mpr ⟨rest, rfl, hRest⟩

/-- Depth first: a node comes before what is in it, and parts come in the declared order. -/
def Precedes (type : Descriptor) (p q : Path) : Prop :=
  (p <+: q ∧ p ≠ q) ∨ type.Before p q

theorem Precedes.ne {p q : Path} (h : type.Precedes p q) : p ≠ q := by
  rcases h with ⟨-, hProper⟩ | hBefore
  · exact hProper
  · rintro rfl
    exact hBefore.apart.1 List.prefix_rfl

theorem Precedes.deeper {declared : Descriptor} {segment : Segment} {p q : Path}
    (hChild : type.child segment = some declared) (h : declared.Precedes p q) :
    type.Precedes (segment :: p) (segment :: q) := by
  rcases h with ⟨hPrefix, hProper⟩ | hBefore
  · exact .inl ⟨List.cons_prefix_cons.mpr ⟨rfl, hPrefix⟩, fun hSame => hProper (List.cons.inj hSame).2⟩
  · exact .inr (.deeper hChild hBefore)

theorem precedes_part {segment : Segment} {rest : Path} (h : rest ≠ []) :
    type.Precedes [segment] (segment :: rest) :=
  .inl ⟨List.cons_prefix_cons.mpr ⟨rfl, List.nil_prefix⟩, fun hSame => h (List.cons.inj hSame).2.symm⟩

theorem pairwise_nested (hNames : type.DistinctNames) :
    (type.nested []).Pairwise fun node later => type.Precedes node.1 later.1 := by
  induction type using inductOnChild with
  | step type ih =>
    rw [nested_eq, List.pairwise_flatMap]
    constructor
    · rintro ⟨segment, declared⟩ hPart
      have hDeclared := (mem_children_iff hNames).mp hPart
      have hDeclaredNames := hNames.child hDeclared
      rw [listPart, Path.child, List.nil_append, nested_singleton hDeclaredNames, List.pairwise_cons,
        List.forall_mem_map, List.pairwise_map]
      constructor
      · rintro ⟨rest, _⟩ hRest
        exact precedes_part ((mem_nested_nil_iff hDeclaredNames).mp hRest).1
      · exact (ih segment declared hDeclared hDeclaredNames).imp (.deeper hDeclared)
    · refine (pairwise_children hNames).imp_of_mem fun hPart hLater hOrder node hNode later hLaterNode => ?_
      have hPartNames := hNames.child ((mem_children_iff hNames).mp hPart)
      have hLaterNames := hNames.child ((mem_children_iff hNames).mp hLater)
      obtain ⟨rest, hRest, -⟩ := (mem_listPart_nil_iff hPartNames fun _ => mem_nested_nil_iff hPartNames).mp hNode
      obtain ⟨laterRest, hLaterRest, -⟩ :=
        (mem_listPart_nil_iff hLaterNames fun _ => mem_nested_nil_iff hLaterNames).mp hLaterNode
      rw [hRest, hLaterRest]
      exact .inr (.here hOrder)

mutual

/-- Field names are names that a path can spell, and the indexes of all parts fit into words. -/
def Spellable : Descriptor → Prop
  | .array length element => length < Word.bound64 ∧ Spellable element
  | .tuple elements => elements.length < Word.bound64 ∧ SpellableEach elements
  | .struct _ fields => SpellableFields fields
  | .field | .boolean | .string _ | .integer _ _ => True

def SpellableEach : List Descriptor → Prop
  | [] => True
  | element :: rest => Spellable element ∧ SpellableEach rest

def SpellableFields : List (String × Descriptor) → Prop
  | [] => True
  | (name, type) :: rest => (Path.IsName name.toList ∧ Spellable type) ∧ SpellableFields rest

end

theorem spellable_tuple_iff {elements : List Descriptor} :
    (tuple elements).Spellable ↔
      elements.length < Word.bound64 ∧ ∀ element ∈ elements, element.Spellable := by
  have hElements : SpellableEach elements ↔ ∀ element ∈ elements, element.Spellable := by
    induction elements with
    | nil => simp [SpellableEach]
    | cons element rest ih => rw [SpellableEach, ih, List.forall_mem_cons]
  rw [Spellable, hElements]

theorem spellable_struct_iff {path : String} {fields : Entries Descriptor} :
    (struct path fields).Spellable ↔
      ∀ field ∈ fields, Path.IsName field.1.toList ∧ field.2.Spellable := by
  rw [Spellable]
  induction fields with
  | nil => simp [SpellableFields]
  | cons field rest ih =>
    obtain ⟨name, type⟩ := field
    rw [SpellableFields, ih, List.forall_mem_cons]

theorem Spellable.child {declared : Descriptor} (h : type.Spellable) {segment : Segment}
    (hType : type.child segment = some declared) : segment.Spellable ∧ declared.Spellable := by
  cases type with
  | field | boolean | string _ | integer _ _ => cases segment <;> cases hType
  | array length element =>
    cases segment with
    | key _ => cases hType
    | index i =>
      obtain ⟨hIndex, ⟨⟩⟩ := Option.ite_none_right_eq_some.mp hType
      exact ⟨Nat.lt_trans hIndex h.1, h.2⟩
  | tuple elements =>
    cases segment with
    | key _ => cases hType
    | index i =>
      obtain ⟨hLength, hElements⟩ := spellable_tuple_iff.mp h
      have hIndex : i < elements.length := (List.getElem?_eq_some_iff.mp hType).1
      exact ⟨Nat.lt_trans hIndex hLength, hElements declared (List.mem_of_getElem? hType)⟩
  | struct path fields =>
    cases segment with
    | index _ => cases hType
    | key name => exact spellable_struct_iff.mp h (name, declared) (Entries.mem_of_lookup hType)

theorem Spellable.at? {declared : Descriptor} (h : type.Spellable) {path : Path}
    (hType : type.at? path = some declared) : path.Spellable := by
  induction path generalizing type with
  | nil => exact fun _ hSegment => nomatch hSegment
  | cons segment rest ih =>
    rw [at?_cons] at hType
    obtain ⟨below, hBelow, hRest⟩ := Option.bind_eq_some_iff.mp hType
    obtain ⟨hSegment, hBelowSpellable⟩ := h.child hBelow
    exact List.forall_mem_cons.mpr ⟨hSegment, ih hBelowSpellable hRest⟩

end CircuitForm.Descriptor
