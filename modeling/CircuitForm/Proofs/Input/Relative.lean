import CircuitForm.Proofs.Input.LocalCheck

/-!
# Errors relative to the node

A check does not depend on where it is made: the value is the same at every place, and the errors
are those of the same check at the root, anchored at the place and put behind what was found before.
A node that fails has one error, and one that passes has the errors of its parts in the declared order.
-/

namespace CircuitForm

open InputError (rebase)

theorem rebase_nil : rebase [] = id :=
  funext fun _ => rfl

theorem rebase_rebase (base relative : Path) (e : InputError) :
    (e.rebase relative).rebase base = e.rebase (base.join relative) := by
  simp [rebase, Path.join_assoc]

theorem rebase_child (base : Path) (segment : Segment) :
    rebase (base.child segment) = rebase base ∘ rebase [segment] :=
  funext fun e => (rebase_rebase base [segment] e).symm

variable {α : Type}

/-- The value does not depend on the place, and the errors are anchored there. -/
def Relative (checkAt : Path → List InputError → Option α × List InputError) : Prop :=
  ∃ (value : Option α) (found : List InputError), ∀ path errors,
    checkAt path errors = (value, errors ++ found.map (rebase path))

theorem Relative.eq {checkAt : Path → List InputError → Option α × List InputError} (h : Relative checkAt)
    (path : Path) (errors : List InputError) :
    checkAt path errors = ((checkAt [] []).1, errors ++ (checkAt [] []).2.map (rebase path)) := by
  obtain ⟨value, found, hFound⟩ := h
  simp [hFound, rebase_nil]

/-- The parts of a literal with the types declared for them, in the declared order. -/
def parts : Descriptor → Literal → List (Segment × Descriptor × Literal)
  | .array _ element, .array items => items.zipIdx.map fun (item, i) => (.index i, element, item)
  | .tuple elements, .array items =>
    (elements.zip items).zipIdx.map fun ((type, item), i) => (.index i, type, item)
  | .struct _ fields, .object entries => fields.filterMap fun (name, type) =>
    (entries.lookup name).map fun literal => (.key name, type, literal)
  | _, _ => []

theorem parts_of_isScalar {type : Descriptor} (hScalar : type.isScalar = true) (literal : Literal) :
    parts type literal = [] := by
  cases type with
  | field | boolean | string _ | integer _ _ => rfl
  | array _ _ | tuple _ | struct _ _ => cases hScalar

/-- The errors of a check at the root. -/
def reported (type : Descriptor) (literal : Literal) : List InputError :=
  (coerce type literal [] []).2

/-- The errors of the parts, one part after the other. -/
def spread (parts : List (Segment × Descriptor × Literal)) (path : Path) : List InputError :=
  parts.flatMap fun (segment, type, literal) => (reported type literal).map (rebase (path.child segment))

theorem spread_eq (parts : List (Segment × Descriptor × Literal)) (path : Path) :
    spread parts path = (spread parts []).map (rebase path) := by
  rw [spread, spread, List.map_flatMap]
  simp only [rebase_child, rebase_nil, Function.id_comp, List.map_map]

theorem coerceEach_spread {element : Descriptor} (h : ∀ literal, Relative (coerce element literal))
    (items : List Literal) (index : Nat) :
    ∃ value, ∀ path errors, coerceEach (coerce element) path index items errors =
      (value, errors ++ spread ((items.zipIdx index).map fun (item, i) => (.index i, element, item)) path) := by
  induction items generalizing index with
  | nil => exact ⟨some [], fun _ errors => by simp [coerceEach, spread]⟩
  | cons item rest ih =>
    obtain ⟨more, hMore⟩ := ih (index + 1)
    refine ⟨do some ((← (coerce element item [] []).1) :: (← more)), ?_⟩
    intro path errors
    rw [coerceEach, (h item).eq]
    simp only [hMore]
    simp [spread, reported]

theorem coerceElements_spread {types : List Descriptor}
    (h : ∀ type ∈ types, ∀ literal, Relative (coerce type literal)) (items : List Literal) (index : Nat) :
    ∃ value, ∀ path errors, coerceElements types path index items errors =
      (value, errors ++
        spread (((types.zip items).zipIdx index).map fun ((type, item), i) => (.index i, type, item)) path) := by
  induction types generalizing items index with
  | nil => exact ⟨some [], fun _ errors => by simp [coerceElements, spread]⟩
  | cons type types ih =>
    cases items with
    | nil => exact ⟨some [], fun _ errors => by simp [coerceElements, spread]⟩
    | cons item rest =>
      rw [List.forall_mem_cons] at h
      obtain ⟨more, hMore⟩ := ih h.2 rest (index + 1)
      refine ⟨do some ((← (coerce type item [] []).1) :: (← more)), ?_⟩
      intro path errors
      rw [coerceElements, (h.1 item).eq]
      simp only [hMore]
      simp [spread, reported]

theorem coerceFields_spread {fields : Entries Descriptor}
    (h : ∀ field ∈ fields, ∀ literal, Relative (coerce field.2 literal)) (entries : Entries Literal)
    (built : Entries InputTree) :
    ∃ value, ∀ path errors, coerceFields fields entries path built errors =
      (value, errors ++ spread (fields.filterMap fun (name, type) =>
        (entries.lookup name).map fun literal => (.key name, type, literal)) path) := by
  induction fields generalizing built with
  | nil => exact ⟨some built, fun _ errors => by simp [coerceFields, spread]⟩
  | cons field rest ih =>
    obtain ⟨name, type⟩ := field
    rw [List.forall_mem_cons] at h
    cases hLiteral : entries.lookup name with
    | none =>
      obtain ⟨more, hMore⟩ := ih h.2 built
      refine ⟨none, fun path errors => ?_⟩
      rw [coerceFields, hLiteral]
      simp [hMore, hLiteral]
    | some literal =>
      cases hFirst : (coerce type literal [] []).1 with
      | none =>
        obtain ⟨more, hMore⟩ := ih h.2 built
        refine ⟨none, fun path errors => ?_⟩
        rw [coerceFields, hLiteral]
        simp only [(h.1 literal).eq (path.child (.key name)) errors, hFirst, hMore]
        simp [hLiteral, spread, reported]
      | some tree =>
        obtain ⟨more, hMore⟩ := ih h.2 (built.insert name tree)
        refine ⟨more, fun path errors => ?_⟩
        rw [coerceFields, hLiteral]
        simp only [(h.1 literal).eq (path.child (.key name)) errors, hFirst, hMore]
        simp [hLiteral, spread, reported]

/-- A node is refused for itself, or it is gone through part by part. -/
def Judged (type : Descriptor) (literal : Literal) : Prop :=
  (∃ fault, Fails type literal fault ∧
    ∀ path errors, coerce type literal path errors = (none, errors ++ [⟨path, fault⟩])) ∨
  Passes type literal ∧ ∃ value, ∀ path errors,
    coerce type literal path errors = (value, errors ++ spread (parts type literal) path)

theorem judged_of_isScalar {type : Descriptor} (hScalar : type.isScalar = true) (literal : Literal) :
    Judged type literal := by
  obtain ⟨fault, hFails, hTree⟩ | ⟨hPasses, tree, hTree⟩ := scalarOf_cases hScalar literal
  · refine .inl ⟨fault, hFails, fun path errors => ?_⟩
    rw [coerce_scalar hScalar, hTree]
  · refine .inr ⟨hPasses, some tree, fun path errors => ?_⟩
    rw [coerce_scalar hScalar, hTree, parts_of_isScalar hScalar, spread, List.flatMap_nil, List.append_nil]

theorem judged_array {element : Descriptor} (h : ∀ literal, Relative (coerce element literal))
    (length : Nat) (literal : Literal) : Judged (.array length element) literal := by
  cases literal with
  | array items =>
    by_cases hLength : items.length = length
    · obtain ⟨value, hValue⟩ := coerceEach_spread h items 0
      refine .inr ⟨?_, value.map .list, ?_⟩
      · intro fault hFails
        cases hFails with
        | kind hKind => exact hKind trivial
        | items hOther => exact hOther hLength
      · intro path errors
        rw [coerce, if_pos hLength, hValue]
        rfl
    · refine .inl ⟨_, .items hLength, fun path errors => ?_⟩
      rw [coerce, if_neg hLength]
  | number _ | boolean _ | string _ | object _ => exact .inl ⟨_, .kind id, fun _ _ => rfl⟩

theorem judged_tuple {elements : List Descriptor}
    (h : ∀ element ∈ elements, ∀ literal, Relative (coerce element literal)) (literal : Literal) :
    Judged (.tuple elements) literal := by
  cases literal with
  | array items =>
    by_cases hLength : items.length = elements.length
    · obtain ⟨value, hValue⟩ := coerceElements_spread h items 0
      refine .inr ⟨?_, value.map .list, ?_⟩
      · intro fault hFails
        cases hFails with
        | kind hKind => exact hKind trivial
        | arity hOther => exact hOther hLength
      · intro path errors
        rw [coerce, if_pos hLength, hValue]
        rfl
    · refine .inl ⟨_, .arity hLength, fun path errors => ?_⟩
      rw [coerce, if_neg hLength]
  | number _ | boolean _ | string _ | object _ => exact .inl ⟨_, .kind id, fun _ _ => rfl⟩

theorem judged_struct {fields : Entries Descriptor}
    (h : ∀ field ∈ fields, ∀ literal, Relative (coerce field.2 literal)) (declared : String)
    (literal : Literal) : Judged (.struct declared fields) literal := by
  cases literal with
  | object entries =>
    by_cases hNames : ∀ name, name ∈ fields.names ↔ name ∈ Entries.names entries
    · obtain ⟨value, hValue⟩ := coerceFields_spread h entries []
      refine .inr ⟨?_, value.map .struct, ?_⟩
      · intro fault hFails
        cases hFails with
        | kind hKind => exact hKind trivial
        | names hOther => exact hOther hNames
      · intro path errors
        have hSet : fieldSetError? path (fields.map Prod.fst) entries = none :=
          fieldSetError?_eq_none_iff.mpr ⟨fun name => (hNames name).mp, fun name => (hNames name).mpr⟩
        rw [coerce, hSet]
        simp only [hValue]
        rfl
    · refine .inl ⟨_, .names hNames, fun path errors => ?_⟩
      have hSet : fieldSetError? path (fields.map Prod.fst) entries = some _ := fieldSetError?_of_names hNames
      rw [coerce, hSet]
  | number _ | boolean _ | string _ | array _ => exact .inl ⟨_, .kind id, fun _ _ => rfl⟩

theorem Judged.relative {type : Descriptor} {literal : Literal} (h : Judged type literal) :
    Relative (coerce type literal) := by
  obtain ⟨fault, -, hCoerce⟩ | ⟨-, value, hCoerce⟩ := h
  · refine ⟨none, [⟨[], fault⟩], fun path errors => ?_⟩
    rw [hCoerce]
    simp [rebase, Path.join]
  · refine ⟨value, spread (parts type literal) [], fun path errors => ?_⟩
    rw [hCoerce, spread_eq]

theorem judged (type : Descriptor) (literal : Literal) : Judged type literal := by
  induction type generalizing literal with
  | field | boolean | string _ | integer _ _ => exact judged_of_isScalar rfl literal
  | array length element ih => exact judged_array (fun item => (ih item).relative) length literal
  | tuple elements ih =>
    exact judged_tuple (fun element hElement item => (ih element hElement item).relative) literal
  | struct declared fields ih =>
    exact judged_struct (fun field hField item => (ih field hField item).relative) declared literal

theorem relative_coerce (type : Descriptor) (literal : Literal) : Relative (coerce type literal) :=
  (judged type literal).relative

end CircuitForm
