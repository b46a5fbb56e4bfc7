import CircuitForm.Proofs.Input.Document
import CircuitForm.Proofs.Input.Report
import CircuitForm.Session.Basic

/-!
# The first error of a refusal

A coercion gives no tree exactly where it has noted an error, so a refusal never comes with an empty
list. Whoever takes the first error of one finds it there, and a document that is accepted has a value
for each name that is declared, also where a name is declared twice.
-/

namespace CircuitForm

theorem typecheck_ne_error_nil (type : Descriptor) (literal : Literal) : typecheck type literal ≠ .error [] :=
  fun h => (typecheck_eq_error_iff.mp h).2 rfl

theorem checkAll_ne_error_nil (type : Descriptor) (raw : String) : checkAll type raw ≠ .error [] := by
  rw [checkAll]
  cases Literal.decode type raw with
  | error error => exact fun h => List.cons_ne_nil error [] (Except.error.inj h)
  | ok literal => exact typecheck_ne_error_nil type literal

/-- The first error of a refusal, if there is one to take. -/
def takeFirst? : Except (List InputError) InputTree → Option (Except InputError InputTree)
  | .ok tree => some (.ok tree)
  | .error errors => errors.head?.map .error

theorem takeFirst?_of_ne {result : Except (List InputError) InputTree} (h : result ≠ .error []) :
    takeFirst? result = some (firstError result) := by
  cases result with
  | ok tree => rfl
  | error errors =>
    cases errors with
    | nil => exact absurd rfl h
    | cons error errors => rfl

/-! The operations that take the first error, with no outcome where there is none to take. -/

def check? (type : Descriptor) (raw : String) : Option (Except InputError InputTree) :=
  takeFirst? (checkAll type raw)

def isRefused? (type : Descriptor) (raw : String) (existing : Option InputTree) : Option Bool := do
  let outcome ← match existing with
    | some tree => takeFirst? (typecheck type (.ofTree tree))
    | none => check? type raw
  some !outcome.isOk

def Session.editValue? (s : Session) (path : Path) (value : InputTree) :
    Option (Except SessionError EditOutcome × Session) :=
  match s.typeFor path with
  | .error error => some (.error error, s)
  | .ok type => (takeFirst? (typecheck type (.ofTree value))).map (s.settle path)

theorem check?_eq (type : Descriptor) (raw : String) : check? type raw = some (check type raw) :=
  takeFirst?_of_ne (checkAll_ne_error_nil type raw)

theorem isOk_firstError (result : Except (List InputError) InputTree) :
    (firstError result).isOk = result.isOk := by
  match result with
  | .ok _ | .error [] | .error (_ :: _) => rfl

theorem isRefused?_eq (type : Descriptor) (raw : String) (existing : Option InputTree) :
    isRefused? type raw existing = some (isRefused type raw existing) := by
  cases existing with
  | none =>
    rw [isRefused?, check?_eq]
    rfl
  | some tree =>
    rw [isRefused?, takeFirst?_of_ne (typecheck_ne_error_nil type _), isRefused, ← isOk_firstError]
    rfl

theorem Session.editValue?_eq (s : Session) (path : Path) (value : InputTree) :
    s.editValue? path value = some (s.editValue path value) := by
  rw [editValue?, editValue]
  cases s.typeFor path with
  | error error => rfl
  | ok type =>
    dsimp only
    rw [takeFirst?_of_ne (typecheck_ne_error_nil type _), Option.map_some]

/-- A field is put in under its name or the whole has no result, so no declared name is left out. -/
theorem mem_names_coerceFields_iff {fields : Entries Descriptor} {literals : Entries Literal} {path : Path}
    {built trees : Entries InputTree} {errors : List InputError}
    (h : (coerceFields fields literals path built errors).1 = some trees) {name : String} :
    name ∈ trees.names ↔ name ∈ built.names ∨ name ∈ fields.names := by
  induction fields generalizing built errors with
  | nil =>
    obtain rfl : built = trees := Option.some.inj h
    simp
  | cons field rest ih =>
    obtain ⟨first, type⟩ := field
    rw [coerceFields] at h
    split at h
    · cases h
    · split at h
      · rw [ih h, Entries.mem_names_insert, Entries.names_cons, List.mem_cons, or_assoc]
      · cases h

theorem mem_names_checkInputs_iff {parameters : List Parameter} {document : Json} {inputs : Inputs}
    (h : checkInputs parameters document = .ok inputs) {name : String} :
    name ∈ Entries.names inputs ↔ name ∈ parameters.map Parameter.name := by
  obtain ⟨literal, -, hTree⟩ := checkInputs_eq_ok_iff.mp h
  have hCoerce := typecheck_eq_ok_iff.mp hTree
  cases literal with
  | object entries =>
    rw [Descriptor.ofParameters, coerce_struct_eq_iff] at hCoerce
    rw [mem_names_coerceFields_iff (congrArg Prod.fst hCoerce.2)]
    simp [Entries.names]
  | number _ | boolean _ | string _ | array _ => cases hCoerce

/-- A coercion keeps the errors it was given and adds some exactly if it gives no tree. So no refusal is
empty, taking its first error always has an outcome, and an accepted document has each declared name. -/
theorem refusal_hasError :
    (∀ type literal path errors, ∃ added, (coerce type literal path errors).2 = errors ++ added ∧
      ((coerce type literal path errors).1 = none ↔ added ≠ [])) ∧
    (∀ type literal, typecheck type literal ≠ .error []) ∧
    (∀ type raw, checkAll type raw ≠ .error [] ∧ check? type raw = some (check type raw)) ∧
    (∀ type raw existing, isRefused? type raw existing = some (isRefused type raw existing)) ∧
    (∀ (s : Session) path value, s.editValue? path value = some (s.editValue path value)) ∧
    ∀ parameters document inputs, checkInputs parameters document = .ok inputs →
      ∀ name, (∃ tree, inputs.lookup name = some tree) ↔ name ∈ parameters.map Parameter.name := by
  refine ⟨accounts_coerce, typecheck_ne_error_nil, ?_, isRefused?_eq, Session.editValue?_eq, ?_⟩
  · exact fun type raw => ⟨checkAll_ne_error_nil type raw, check?_eq type raw⟩
  · intro parameters document inputs h name
    rw [← mem_names_checkInputs_iff h, ← Option.ne_none_iff_exists', ne_eq, Entries.lookup_eq_none_iff,
      Classical.not_not]

def repeatedParameters : List Parameter :=
  [⟨"on", .string 1, none⟩, ⟨"owner", .struct "" [("tag", .string 1), ("tag", .string 1)], none⟩,
    ⟨"on", .boolean, none⟩]

def repeatedInputs : Inputs :=
  [("on", .boolean true), ("owner", .struct [("tag", .string "a")])]

/-- The second parameter of the name is checked too, and its value replaces that of the first. -/
theorem refusal_hasError_repeated :
    checkInputs repeatedParameters (.object [("owner", .object [("tag", .string "a")]), ("on", .string "1")]) =
      .ok repeatedInputs ∧
    ∃ tree, repeatedInputs.lookup "owner" = some tree := by
  have hChecked : checkInputs repeatedParameters
      (.object [("owner", .object [("tag", .string "a")]), ("on", .string "1")]) = .ok repeatedInputs := rfl
  exact ⟨hChecked, (refusal_hasError.2.2.2.2.2 _ _ _ hChecked "owner").mpr (by decide)⟩

end CircuitForm
