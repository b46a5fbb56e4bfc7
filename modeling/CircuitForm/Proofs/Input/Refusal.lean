import CircuitForm.Proofs.Input.Coercion

/-!
# Errors of a coercion

Errors are only ever added behind those found before, and a coercion gives no tree exactly when it
has added one. So nothing is refused without an error, and nothing with an error is accepted.
-/

namespace CircuitForm

variable {α : Type}

/-- The earlier errors stand, and the result is missing exactly if some were added. -/
def Accounts (errors : List InputError) (result : Option α × List InputError) : Prop :=
  ∃ added, result.2 = errors ++ added ∧ (result.1 = none ↔ added ≠ [])

namespace Accounts

variable {errors : List InputError}

theorem accepted (value : α) (errors : List InputError) : Accounts errors (some value, errors) :=
  ⟨[], by simp⟩

theorem refused (errors : List InputError) (error : InputError) :
    Accounts errors ((none : Option α), errors ++ [error]) :=
  ⟨[error], by simp⟩

theorem map {β : Type} {result : Option α × List InputError} (h : Accounts errors result) (f : α → β) :
    Accounts errors (result.1.map f, result.2) := by
  obtain ⟨added, hErrors, hNone⟩ := h
  exact ⟨added, hErrors, by rw [Option.map_eq_none_iff, hNone]⟩

/-- A second part starts with the errors of the first. -/
theorem append {β : Type} {first : Option α × List InputError} {second : Option β × List InputError}
    (hFirst : Accounts errors first) (hSecond : Accounts first.2 second) :
    ∃ added, second.2 = errors ++ added ∧ (first.1 = none ∨ second.1 = none ↔ added ≠ []) := by
  obtain ⟨front, hFront, hFirstNone⟩ := hFirst
  obtain ⟨back, hBack, hSecondNone⟩ := hSecond
  refine ⟨front ++ back, by rw [hBack, hFront, List.append_assoc], ?_⟩
  rw [hFirstNone, hSecondNone, ne_eq, ne_eq, ne_eq, List.append_eq_nil_iff, Classical.not_and_iff_not_or_not]

theorem cons {first : Option α × List InputError} {more : Option (List α) × List InputError}
    (hFirst : Accounts errors first) (hMore : Accounts first.2 more) :
    Accounts errors (do some ((← first.1) :: (← more.1)), more.2) := by
  obtain ⟨added, hErrors, hNone⟩ := hFirst.append hMore
  refine ⟨added, hErrors, ?_⟩
  rw [← hNone]
  cases first.1 <;> cases more.1 <;> simp

/-- Without its result a part is passed over, and the whole has none either. -/
theorem none_of_refused {β : Type} {first : Option α × List InputError} {second : Option β × List InputError}
    (hFirst : Accounts errors first) (hNone : first.1 = none) (hSecond : Accounts first.2 second) :
    Accounts errors ((none : Option β), second.2) := by
  obtain ⟨added, hErrors, hAdded⟩ := hFirst.append hSecond
  exact ⟨added, hErrors, iff_of_true rfl (hAdded.mp (.inl hNone))⟩

theorem of_accepted {β : Type} {first : Option α × List InputError} {second : Option β × List InputError}
    (hFirst : Accounts errors first) {value : α} (hSome : first.1 = some value)
    (hSecond : Accounts first.2 second) : Accounts errors second := by
  obtain ⟨added, hErrors, hAdded⟩ := hFirst.append hSecond
  exact ⟨added, hErrors, by rw [← hAdded, hSome]; simp⟩

end Accounts

theorem accounts_coerceEach
    {coerceItem : Literal → Path → List InputError → Option InputTree × List InputError}
    (h : ∀ item path errors, Accounts errors (coerceItem item path errors)) (path : Path) (index : Nat)
    (items : List Literal) (errors : List InputError) :
    Accounts errors (coerceEach coerceItem path index items errors) := by
  induction items generalizing index errors with
  | nil => exact .accepted _ _
  | cons item rest ih => exact (h item _ errors).cons (ih (index + 1) _)

theorem accounts_coerceElements {types : List Descriptor}
    (h : ∀ type ∈ types, ∀ literal path errors, Accounts errors (coerce type literal path errors))
    (path : Path) (index : Nat) (items : List Literal) (errors : List InputError) :
    Accounts errors (coerceElements types path index items errors) := by
  induction types generalizing index items errors with
  | nil => cases items <;> exact .accepted _ _
  | cons type types ih =>
    cases items with
    | nil => exact .accepted _ _
    | cons item rest =>
      rw [List.forall_mem_cons] at h
      exact (h.1 item _ errors).cons (ih h.2 (index + 1) rest _)

theorem accounts_coerceFields {fields : Entries Descriptor}
    (h : ∀ field ∈ fields, ∀ literal path errors, Accounts errors (coerce field.2 literal path errors))
    {literals : Entries Literal} (hNames : ∀ name ∈ fields.names, name ∈ literals.names) (path : Path)
    (built : Entries InputTree) (errors : List InputError) :
    Accounts errors (coerceFields fields literals path built errors) := by
  induction fields generalizing built errors with
  | nil => exact .accepted _ _
  | cons field rest ih =>
    obtain ⟨name, type⟩ := field
    rw [List.forall_mem_cons] at h
    rw [Entries.names_cons, List.forall_mem_cons] at hNames
    rw [coerceFields]
    cases hLiteral : literals.lookup name with
    | none => exact absurd hNames.1 (Entries.lookup_eq_none_iff.mp hLiteral)
    | some literal =>
      have hField := h.1 literal (path.child (.key name)) errors
      dsimp only
      rcases hResult : coerce type literal (path.child (.key name)) errors with ⟨_ | tree, found⟩
      · rw [hResult] at hField
        exact hField.none_of_refused rfl (ih h.2 hNames.2 built found)
      · rw [hResult] at hField
        exact hField.of_accepted rfl (ih h.2 hNames.2 _ found)

theorem accounts_coerce (type : Descriptor) (literal : Literal) (path : Path) (errors : List InputError) :
    Accounts errors (coerce type literal path errors) := by
  induction type generalizing literal path errors with
  | field | boolean | string _ | integer _ _ =>
    rw [coerce_scalar rfl]
    split
    · exact .accepted _ _
    · exact .refused _ _
  | array length element ih =>
    cases literal with
    | array items =>
      rw [coerce]
      split
      · exact (accounts_coerceEach ih path 0 items errors).map _
      · exact .refused _ _
    | number _ | boolean _ | string _ | object _ => exact .refused errors _
  | tuple elements ih =>
    cases literal with
    | array items =>
      rw [coerce]
      split
      · exact (accounts_coerceElements ih path 0 items errors).map _
      · exact .refused _ _
    | number _ | boolean _ | string _ | object _ => exact .refused errors _
  | struct declared fields ih =>
    cases literal with
    | object entries =>
      rw [coerce]
      split
      · exact .refused _ _
      · rename_i hSet
        have hNames := (fieldSetError?_eq_none_iff.mp hSet).1
        exact (accounts_coerceFields ih hNames path [] errors).map _
    | number _ | boolean _ | string _ | array _ => exact .refused errors _

end CircuitForm
