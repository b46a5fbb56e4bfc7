import CircuitForm.Proofs.Input.Document

/-!
# A document as one struct

The parameters are checked by a loop of their own, which goes by the errors it has noted, where the
check of a struct goes by the fields it has trees for. They come to the same: the same trees in
the same order, or the same errors in the same order at the same paths.
-/

namespace CircuitForm

/-- Checks a whole document as a value of one type. -/
def checkDocument (type : Descriptor) (document : Json) : Except (List InputError) InputTree :=
  match Literal.ofJson document with
  | .error error => .error [error]
  | .ok literal => typecheck type literal

def Descriptor.structOf (declared : String) (parameters : List Parameter) : Descriptor :=
  .struct declared (parameters.map fun parameter => (parameter.name, parameter.type))

/-- Two checks of a document say the same. Only of a document that is no object they may tell in
different words what they expected in its place. -/
inductive SameVerdict (document : Json) :
    Except (List InputError) Inputs → Except (List InputError) InputTree → Prop where
  | accepted (inputs : Inputs) : SameVerdict document (.ok inputs) (.ok (.struct inputs))
  | refused (errors : List InputError) : SameVerdict document (.error errors) (.error errors)
  | noObject (h : ∀ members, document ≠ .object members) (one other found : String) :
    SameVerdict document (.error [⟨[], .mismatch one found⟩]) (.error [⟨[], .mismatch other found⟩])

theorem Literal.exists_object_of_ofJson {members : Entries Json} {literal : Literal}
    (h : ofJson (.object members) = .ok literal) : ∃ entries, literal = .object entries := by
  obtain ⟨entries, -, rfl⟩ := map_eq_ok_iff.mp h
  exact ⟨entries, rfl⟩

theorem typecheck_struct_of_fieldSetError {declared : String} {fields : Entries Descriptor}
    {entries : Entries Literal} {error : InputError}
    (h : fieldSetError? [] fields.names entries = some error) :
    typecheck (.struct declared fields) (.object entries) = .error [error] := by
  rw [typecheck, coerce]
  rw [Entries.names] at h
  rw [h]
  rfl

/-- Behind the comparison of the names, the check of a struct goes by its errors too: a tree is
missing only where an error was noted. -/
theorem typecheck_struct_of_fields (declared : String) {fields : Entries Descriptor}
    {entries : Entries Literal} (h : fieldSetError? [] fields.names entries = none) :
    (∃ trees, coerceFields fields entries [] [] [] = (some trees, []) ∧
      typecheck (.struct declared fields) (.object entries) = .ok (.struct trees)) ∨
    (∃ errors, (coerceFields fields entries [] [] []).2 = errors ∧ errors ≠ [] ∧
      typecheck (.struct declared fields) (.object entries) = .error errors) := by
  obtain ⟨added, hAdded, hNone⟩ := accounts_coerceFields
    (fun _ _ literal path errors => accounts_coerce _ literal path errors)
    (fieldSetError?_eq_none_iff.mp h).1 [] [] []
  rw [typecheck, coerce]
  rw [Entries.names] at h
  rw [h]
  generalize coerceFields fields entries [] [] [] = result at hAdded hNone ⊢
  obtain ⟨trees, errors⟩ := result
  dsimp only at hAdded hNone ⊢
  rw [List.nil_append] at hAdded
  subst hAdded
  cases errors with
  | nil =>
    cases trees with
    | none => exact absurd rfl (hNone.mp rfl)
    | some trees => exact .inl ⟨trees, rfl, rfl⟩
  | cons error errors =>
    refine .inr ⟨_, rfl, List.cons_ne_nil error errors, ?_⟩
    cases trees <;> rfl

theorem sameVerdict_object (document : Json) (declared : String) (parameters : List Parameter)
    (entries : Entries Literal) (hLiteral : Literal.ofJson document = .ok (.object entries)) :
    SameVerdict document (checkInputs parameters document)
      (typecheck (.structOf declared parameters) (.object entries)) := by
  have hNames : Entries.names (parameters.map fun parameter => (parameter.name, parameter.type)) =
      parameters.map Parameter.name := by
    simp [Entries.names, Function.comp_def]
  rw [checkInputs, hLiteral, Descriptor.structOf]
  dsimp only
  cases hSet : fieldSetError? [] (parameters.map Parameter.name) entries with
  | some error =>
    rw [typecheck_struct_of_fieldSetError (hNames ▸ hSet)]
    exact .refused [error]
  | none =>
    obtain ⟨hErrors, hTrees⟩ := coerceParameters_eq parameters entries [] []
    generalize coerceParameters parameters entries [] [] = result at hErrors hTrees ⊢
    obtain ⟨built, found⟩ := result
    obtain ⟨trees, hFields, hAccepted⟩ | ⟨errors, hFound, hSome, hRefused⟩ :=
      typecheck_struct_of_fields declared (hNames ▸ hSet)
    · rw [hFields] at hErrors hTrees
      cases hErrors
      cases hTrees trees rfl
      rw [hAccepted]
      exact .accepted built
    · cases hErrors.trans hFound
      rw [hRefused]
      cases found with
      | nil => exact absurd rfl hSome
      | cons error errors => exact .refused _

/-- A document is checked as one struct that has the parameters for its fields, whatever path the
struct is declared under and also where a name is declared twice. -/
theorem sameVerdict_checkInputs (declared : String) (parameters : List Parameter) (document : Json) :
    SameVerdict document (checkInputs parameters document)
      (checkDocument (.structOf declared parameters) document) := by
  rw [checkDocument]
  cases hLiteral : Literal.ofJson document with
  | error error =>
    rw [checkInputs, hLiteral]
    exact .refused [error]
  | ok literal =>
    cases literal with
    | object entries => exact sameVerdict_object document declared parameters entries hLiteral
    | number _ | boolean _ | string _ | array _ =>
      have hObject : ∀ members, document ≠ .object members := by
        rintro members rfl
        obtain ⟨entries, hSame⟩ := Literal.exists_object_of_ofJson hLiteral
        cases hSame
      rw [checkInputs, hLiteral]
      exact .noObject hObject _ _ _

end CircuitForm
