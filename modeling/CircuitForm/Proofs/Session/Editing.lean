import CircuitForm.Proofs.Input.Coercion
import CircuitForm.Session.Basic

/-!
# Edits

An edit by text and an edit by a value differ only in what they check against the declared
type. What is settled in the end passed a typecheck in both cases.
-/

namespace CircuitForm

namespace Session

theorem typeFor_eq_ok_iff {s : Session} {path : Path} {type : Descriptor} :
    s.typeFor path = .ok type ↔
      typeAt s.program.parameters path = some type ∧ ∃ node, s.inputs.at? path = some node := by
  rw [typeFor]
  cases typeAt s.program.parameters path with
  | none => simp
  | some declared => cases s.inputs.at? path <;> simp

def editBy (s : Session) (path : Path) (checked : Descriptor → Except InputError InputTree) :
    Except SessionError EditOutcome × Session :=
  match s.typeFor path with
  | .error error => (.error error, s)
  | .ok type => s.settle path (checked type)

/-- Whatever comes out of the check was typechecked. -/
def Typechecks (checked : Descriptor → Except InputError InputTree) : Prop :=
  ∀ type value, checked type = .ok value → ∃ literal, typecheck type literal = .ok value

def checkedText (raw : String) (type : Descriptor) : Except InputError InputTree :=
  check type raw

def checkedValue (value : InputTree) (type : Descriptor) : Except InputError InputTree :=
  firstError (typecheck type (.ofTree value))

theorem typechecks_checkedText (raw : String) : Typechecks (checkedText raw) :=
  fun _ _ h => exists_literal_of_check h

theorem typechecks_checkedValue (value : InputTree) : Typechecks (checkedValue value) :=
  fun _ _ h => ⟨_, firstError_eq_ok_iff.mp h⟩

theorem edit_eq_editBy (s : Session) (path : Path) (raw : String) :
    s.edit path raw = s.editBy path (checkedText raw) := rfl

theorem editValue_eq_editBy (s : Session) (path : Path) (value : InputTree) :
    s.editValue path value = s.editBy path (checkedValue value) := rfl

theorem editBy_of_error {s : Session} {path : Path} {error : SessionError}
    (h : s.typeFor path = .error error) (checked : Descriptor → Except InputError InputTree) :
    s.editBy path checked = (.error error, s) := by
  rw [editBy, h]

theorem editBy_of_type {s : Session} {path : Path} {type : Descriptor} (h : s.typeFor path = .ok type)
    (checked : Descriptor → Except InputError InputTree) :
    s.editBy path checked = s.settle path (checked type) := by
  rw [editBy, h]

theorem settle_of_replace_error {s : Session} {path : Path} {value : InputTree} {error : ShapeError}
    (h : s.inputs.replace path value = .error error) :
    s.settle path (.ok value) = (.error (.shape error), s) := by
  simp only [settle, h]

theorem settle_of_replace {s : Session} {path : Path} {value : InputTree} {inputs : Inputs}
    (h : s.inputs.replace path value = .ok inputs) :
    s.settle path (.ok value) =
      (.ok .committed, { s.withInputs inputs with invalid := s.invalid.clearSubtree path }) := by
  simp only [settle, h]

/-- An edit fails and changes nothing, or marks its path, or replaces the node there. -/
theorem editBy_cases (s : Session) (path : Path) (checked : Descriptor → Except InputError InputTree) :
    (∃ error, s.editBy path checked = (.error error, s)) ∨
    (∃ refusal, s.editBy path checked =
      (.ok (.rejected refusal), { s with invalid := s.invalid.register path true })) ∨
    ∃ type value inputs, typeAt s.program.parameters path = some type ∧ checked type = .ok value ∧
      s.inputs.replace path value = .ok inputs ∧ s.editBy path checked =
        (.ok .committed, { s.withInputs inputs with invalid := s.invalid.clearSubtree path }) := by
  cases hType : s.typeFor path with
  | error error => exact .inl ⟨error, editBy_of_error hType checked⟩
  | ok type =>
    rw [editBy_of_type hType]
    cases hResult : checked type with
    | error refusal => exact .inr (.inl ⟨refusal.rebase path, rfl⟩)
    | ok value =>
      cases hInputs : s.inputs.replace path value with
      | error fault => exact .inl ⟨.shape fault, settle_of_replace_error hInputs⟩
      | ok inputs =>
        have hDeclared := (typeFor_eq_ok_iff.mp hType).1
        exact .inr (.inr ⟨type, value, inputs, hDeclared, hResult, hInputs, settle_of_replace hInputs⟩)

theorem editBy_eq_rejected_iff {s : Session} {path : Path} {type : Descriptor} (h : s.typeFor path = .ok type)
    {checked : Descriptor → Except InputError InputTree} {refusal : InputError} :
    (s.editBy path checked).1 = .ok (.rejected refusal) ↔
      ∃ error, checked type = .error error ∧ error.rebase path = refusal := by
  rw [editBy_of_type h]
  cases checked type with
  | error error => simp [settle]
  | ok value =>
    rw [settle]
    cases s.inputs.replace path value <;> simp

end Session

end CircuitForm
