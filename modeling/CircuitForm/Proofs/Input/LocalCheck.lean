import CircuitForm.Proofs.Input.Coercion
import CircuitForm.Proofs.Input.TruthValue

/-!
# The local check of a node

What can be wrong with a node itself is the kind of its literal, the sign of a number, the length of a
string, the number of elements or the set of names. A node that has nothing of this passes, whatever
its parts are.
-/

namespace CircuitForm

/-- The literal is of a kind that the type takes; a boolean may be spelled as a number or a text. -/
def Suits : Descriptor → Literal → Prop
  | .field, .number _ | .integer _ _, .number _ | .string _, .string _ | .array _ _, .array _
  | .tuple _, .array _ | .struct _ _, .object _ => True
  | .boolean, literal => ∃ b, SpellsBoolean literal b
  | _, _ => False

/-- What is wrong with a node itself, whatever its parts are. -/
inductive Fails : Descriptor → Literal → InputFault → Prop where
  | kind {type : Descriptor} {literal : Literal} (h : ¬ Suits type literal) :
      Fails type literal (.mismatch (expectedName type) (foundName literal))
  | sign {width : Nat} {n : Numeral} (h : n.isNegative = true) :
      Fails (.integer .unsigned width) (.number n) (.negative n)
  | length {length : Nat} {s : String} (h : s.length ≠ length) :
      Fails (.string length) (.string s) (.wrongLength length s.length)
  | items {length : Nat} {element : Descriptor} {items : List Literal} (h : items.length ≠ length) :
      Fails (.array length element) (.array items) (.wrongLength length items.length)
  | arity {elements : List Descriptor} {items : List Literal} (h : items.length ≠ elements.length) :
      Fails (.tuple elements) (.array items) (.wrongLength elements.length items.length)
  | names {path : String} {fields : Entries Descriptor} {entries : Entries Literal}
      (h : ¬ ∀ name, name ∈ fields.names ↔ name ∈ entries.names) :
      Fails (.struct path fields) (.object entries)
        (.wrongFields (fields.names.filter (· ∉ entries.names)) (entries.names.filter (· ∉ fields.names)))

def Passes (type : Descriptor) (literal : Literal) : Prop :=
  ∀ fault, ¬ Fails type literal fault

theorem Fails.unique {type : Descriptor} {literal : Literal} {fault other : InputFault}
    (h : Fails type literal fault) (hOther : Fails type literal other) : fault = other := by
  cases h with
  | kind hKind =>
    cases hOther with
    | kind _ => rfl
    | sign _ | length _ | items _ | arity _ | names _ => exact absurd trivial hKind
  | sign _ | length _ | items _ | arity _ | names _ =>
    cases hOther with
    | kind hKind => exact absurd trivial hKind
    | _ => rfl

theorem scalarOf_cases {type : Descriptor} (hScalar : type.isScalar = true) (literal : Literal) :
    (∃ fault, Fails type literal fault ∧ scalarOf type literal = .error fault) ∨
      Passes type literal ∧ ∃ tree, scalarOf type literal = .ok tree := by
  cases type with
  | field =>
    cases literal with
    | number n =>
      refine .inr ⟨?_, _, rfl⟩
      rintro _ ⟨hKind⟩
      exact hKind trivial
    | boolean _ | string _ | array _ | object _ => exact .inl ⟨_, .kind id, rfl⟩
  | integer sign width =>
    cases literal with
    | number n =>
      rw [scalarOf]
      split
      · rename_i hSign
        obtain ⟨rfl, hNegative⟩ := hSign
        exact .inl ⟨_, .sign hNegative, rfl⟩
      · rename_i hSign
        refine .inr ⟨?_, _, rfl⟩
        intro fault hFails
        cases hFails with
        | kind hKind => exact hKind trivial
        | sign hNegative => exact hSign ⟨rfl, hNegative⟩
    | boolean _ | string _ | array _ | object _ => exact .inl ⟨_, .kind id, rfl⟩
  | boolean =>
    cases hRead : booleanOf? literal with
    | none =>
      refine .inl ⟨_, .kind ?_, by rw [scalarOf, hRead]; rfl⟩
      rintro ⟨b, hSpelled⟩
      cases hRead.symm.trans (booleanOf?_eq_some_iff.mpr hSpelled)
    | some b =>
      refine .inr ⟨?_, _, by rw [scalarOf, hRead]⟩
      rintro _ ⟨hKind⟩
      exact hKind ⟨b, booleanOf?_eq_some_iff.mp hRead⟩
  | string length =>
    cases literal with
    | string s =>
      rw [scalarOf]
      split
      · rename_i hLength
        refine .inr ⟨?_, _, rfl⟩
        intro fault hFails
        cases hFails with
        | kind hKind => exact hKind trivial
        | length hOther => exact hOther hLength
      · rename_i hLength
        exact .inl ⟨_, .length hLength, rfl⟩
    | number _ | boolean _ | array _ | object _ => exact .inl ⟨_, .kind id, rfl⟩
  | array _ _ | tuple _ | struct _ _ => cases hScalar

theorem fieldSetError?_of_names {path : Path} {fields : Entries Descriptor} {entries : Entries Literal}
    (h : ¬ ∀ name, name ∈ fields.names ↔ name ∈ entries.names) :
    fieldSetError? path fields.names entries = some ⟨path, .wrongFields
      (fields.names.filter (· ∉ entries.names)) (entries.names.filter (· ∉ fields.names))⟩ := by
  cases hSet : fieldSetError? path fields.names entries with
  | none =>
    obtain ⟨hMissing, hUnexpected⟩ := fieldSetError?_eq_none_iff.mp hSet
    exact absurd (fun name => ⟨hMissing name, hUnexpected name⟩) h
  | some error =>
    rw [fieldSetError?] at hSet
    split at hSet
    · cases hSet
    · cases hSet
      simp

end CircuitForm
