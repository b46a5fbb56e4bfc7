import CircuitForm.Proofs.Input.FirstNull
import CircuitForm.Proofs.Session.Conformance
import CircuitForm.Proofs.Session.FirstError

/-!
# Errors anchored where they are

A check knows only the node that it was given, and its errors are anchored at the place of that node
afterwards, or on the way down. It comes to the same. So the errors of a document below a parameter are
those of the parameter's literal alone, and an edit of the parameter is refused with the first of them.
-/

namespace CircuitForm

open InputError (rebase)

variable {α : Type}

/-- The errors of a refusal. An acceptance has none. -/
def errorsOf (result : Except (List InputError) α) : List InputError :=
  (errorOf? result).getD []

theorem errorsOf_typecheck (type : Descriptor) (literal : Literal) :
    errorsOf (typecheck type literal) = reported type literal := by
  cases hResult : typecheck type literal with
  | ok tree => rw [reported, typecheck_eq_ok_iff.mp hResult]; rfl
  | error errors => exact (typecheck_eq_error_iff.mp hResult).1

theorem firstError_eq_error_iff {result : Except (List InputError) InputTree} (h : result ≠ .error [])
    {error : InputError} : firstError result = .error error ↔ (errorsOf result).head? = some error := by
  match result with
  | .ok _ => simp [firstError, errorsOf, errorOf?]
  | .error [] => exact absurd rfl h
  | .error (first :: rest) => simp [firstError, errorsOf, errorOf?]

/-- The document is an object of literals under the names of the parameters. -/
def Supplies (document : Json) (parameters : List Parameter) (entries : Entries Literal) : Prop :=
  Literal.ofJson document = .ok (.object entries) ∧
    ∀ name, name ∈ parameters.map Parameter.name ↔ name ∈ entries.names

/-- The errors of the parameter's literal alone, anchored at the parameter. -/
def errorsFor (entries : Entries Literal) (parameter : Parameter) : List InputError :=
  match entries.lookup parameter.name with
  | some literal => (errorsOf (typecheck parameter.type literal)).map (rebase [.key parameter.name])
  | none => []

/-- Those of the errors that are at a parameter or below it. -/
def errorsBelow (name : String) (errors : List InputError) : List InputError :=
  errors.filter (·.path.startsWith [.key name])

theorem coerceParameters_errors (parameters : List Parameter) (entries : Entries Literal) (built : Inputs)
    (errors : List InputError) :
    (coerceParameters parameters entries built errors).2 = errors ++ parameters.flatMap (errorsFor entries) := by
  induction parameters generalizing built errors with
  | nil => simp [coerceParameters]
  | cons parameter rest ih =>
    rw [coerceParameters, List.flatMap_cons, errorsFor]
    cases entries.lookup parameter.name with
    | none => exact ih built errors
    | some literal =>
      dsimp only
      rw [(relative_coerce parameter.type literal).eq, errorsOf_typecheck, ← List.append_assoc, reported]
      cases (coerce parameter.type literal [] []).1 with
      | none => exact ih built _
      | some tree => exact ih _ _

theorem Supplies.errorsOf_checkInputs {document : Json} {parameters : List Parameter} {entries : Entries Literal}
    (h : Supplies document parameters entries) :
    errorsOf (checkInputs parameters document) = parameters.flatMap (errorsFor entries) := by
  obtain ⟨hLiteral, hNames⟩ := h
  have hSet : fieldSetError? [] (parameters.map Parameter.name) entries = none :=
    fieldSetError?_eq_none_iff.mpr ⟨fun name => (hNames name).mp, fun name => (hNames name).mpr⟩
  have hErrors := coerceParameters_errors parameters entries [] []
  rw [List.nil_append] at hErrors
  rw [← hErrors, checkInputs, hLiteral]
  dsimp only
  rw [hSet]
  dsimp only
  rcases coerceParameters parameters entries [] [] with ⟨inputs, _ | ⟨error, errors⟩⟩ <;> rfl

/-- A document that does not supply the parameters is refused as a whole. -/
theorem path_eq_nil_of_not_supplies {document : Json} {parameters : List Parameter} {literal : Literal}
    (hLiteral : Literal.ofJson document = .ok literal) (h : ∀ entries, ¬ Supplies document parameters entries)
    {error : InputError} (hError : error ∈ errorsOf (checkInputs parameters document)) : error.path = [] := by
  rw [checkInputs, hLiteral] at hError
  cases literal with
  | object entries =>
    dsimp only at hError
    cases hSet : fieldSetError? [] (parameters.map Parameter.name) entries with
    | none =>
      obtain ⟨hMissing, hUnexpected⟩ := fieldSetError?_eq_none_iff.mp hSet
      exact absurd ⟨hLiteral, fun name => ⟨hMissing name, hUnexpected name⟩⟩ (h entries)
    | some refusal =>
      rw [hSet] at hError
      obtain rfl := List.mem_singleton.mp hError
      rw [fieldSetError?] at hSet
      obtain ⟨-, ⟨⟩⟩ := Option.ite_none_left_eq_some.mp hSet
      rfl
  | number _ | boolean _ | string _ | array _ =>
    obtain rfl := List.mem_singleton.mp hError
    rfl

/-- A `null` is the only error, and its place is that in the member, below the name of the member. -/
theorem exists_member_of_ofJson {members : Entries Json} {error : InputError}
    (h : Literal.ofJson (.object members) = .error error) :
    ∃ name item relative, (name, item) ∈ members ∧ Literal.ofJson item = .error relative ∧
      relative.rebase [.key name] = error := by
  obtain ⟨⟨⟩, -⟩ | ⟨front, segment, item, back, hParts, hError, -⟩ := Literal.ofJsonAt_eq_error_iff.mp h
  have hPart : (segment, item) ∈ (Json.object members).parts := by simp [hParts]
  obtain ⟨⟨name, item⟩, hMember, ⟨⟩⟩ := List.mem_map.mp hPart
  have hItem := errorOf?_eq_some_iff.mpr hError
  rw [Literal.errorOf?_ofJsonAt_eq_map, Option.map_eq_some_iff] at hItem
  obtain ⟨relative, hRelative, hSame⟩ := hItem
  exact ⟨name, item, relative, hMember, errorOf?_eq_some_iff.mp hRelative, hSame⟩

theorem path_of_mem_errorsFor {entries : Entries Literal} {parameter : Parameter} {error : InputError}
    (h : error ∈ errorsFor entries parameter) : ∃ rest, error.path = .key parameter.name :: rest := by
  rw [errorsFor] at h
  split at h
  · obtain ⟨relative, -, rfl⟩ := List.mem_map.mp h
    exact ⟨relative.path, rfl⟩
  · cases h

theorem errorsBelow_errorsFor (entries : Entries Literal) (parameter : Parameter) (name : String) :
    errorsBelow name (errorsFor entries parameter) =
      if parameter.name = name then errorsFor entries parameter else [] := by
  split
  · rename_i hName
    refine List.filter_eq_self.mpr fun error hError => ?_
    obtain ⟨rest, hPath⟩ := path_of_mem_errorsFor hError
    simp [hPath, hName, Path.startsWith]
  · rename_i hName
    refine List.filter_eq_nil_iff.mpr fun error hError => ?_
    obtain ⟨rest, hPath⟩ := path_of_mem_errorsFor hError
    simp [hPath, Ne.symm hName, Path.startsWith]

theorem errorsBelow_flatMap (entries : Entries Literal) (parameters : List Parameter) (name : String) :
    errorsBelow name (parameters.flatMap (errorsFor entries)) =
      (parameters.filter (·.name = name)).flatMap (errorsFor entries) := by
  induction parameters with
  | nil => rfl
  | cons parameter rest ih =>
    rw [List.flatMap_cons, errorsBelow, List.filter_append, ← errorsBelow, ← errorsBelow, ih,
      errorsBelow_errorsFor]
    by_cases hName : parameter.name = name <;> simp [hName]

theorem filter_eq_singleton {parameters : List Parameter} (hDistinct : (parameters.map Parameter.name).Nodup)
    {parameter : Parameter} (h : parameter ∈ parameters) :
    parameters.filter (·.name = parameter.name) = [parameter] := by
  induction parameters with
  | nil => cases h
  | cons first rest ih =>
    rw [List.map_cons, List.nodup_cons] at hDistinct
    rcases List.mem_cons.mp h with rfl | hRest
    · have hNone : rest.filter (·.name = parameter.name) = [] := by
        refine List.filter_eq_nil_iff.mpr fun other hOther hSame => hDistinct.1 ?_
        exact of_decide_eq_true hSame ▸ List.mem_map_of_mem hOther
      rw [List.filter_cons_of_pos (by simp), hNone]
    · have hName : first.name ≠ parameter.name := fun hSame =>
        hDistinct.1 (hSame ▸ List.mem_map_of_mem hRest)
      rw [List.filter_cons_of_neg (by simpa using hName), ih hDistinct.2 hRest]

/-- An edit is refused with the first of the errors, and it is not refused if there is none. -/
def RefusedWith (answer : Except SessionError EditOutcome) (errors : List InputError) : Prop :=
  ∀ refusal, answer = .ok (.rejected refusal) ↔ errors.head? = some refusal

namespace Session

/-- The literal is submitted at the path, as a text or as a value, with this answer. -/
inductive Submitted (s : Session) (path : Path) (type : Descriptor) (literal : Literal) :
    Except SessionError EditOutcome → Prop where
  | text {raw : String} (h : Literal.decode type raw = .ok literal) :
      Submitted s path type literal (s.edit path raw).1
  | value {value : InputTree} (h : Literal.ofTree value = literal) :
      Submitted s path type literal (s.editValue path value).1

variable {s : Session} {path : Path} {type : Descriptor}

theorem refusedWith_editBy (hType : s.typeFor path = .ok type)
    {checked : Descriptor → Except InputError InputTree} {literal : Literal}
    (hChecked : checked type = firstError (typecheck type literal)) :
    RefusedWith (s.editBy path checked).1 ((errorsOf (typecheck type literal)).map (rebase path)) := by
  intro refusal
  rw [editBy_eq_rejected_iff hType, hChecked, List.head?_map, Option.map_eq_some_iff]
  simp only [firstError_eq_error_iff (typecheck_ne_error_nil type literal)]

theorem Submitted.refusedWith {literal : Literal} {answer : Except SessionError EditOutcome}
    (h : s.Submitted path type literal answer) (hType : s.typeFor path = .ok type) :
    RefusedWith answer ((errorsOf (typecheck type literal)).map (rebase path)) := by
  cases h with
  | @text raw hRaw =>
    rw [edit_eq_editBy]
    refine refusedWith_editBy hType ?_
    rw [checkedText, check, checkAll, hRaw]
  | @value value hValue =>
    rw [editValue_eq_editBy]
    refine refusedWith_editBy hType ?_
    rw [checkedValue, hValue]

/-- Every parameter of the selected program has its place in the inputs. -/
theorem typeFor_parameter {registry : Registry} (hNames : s.program.DistinctNames) (h : Reachable registry s)
    {parameter : Parameter} (hParameter : parameter ∈ s.program.parameters) :
    s.typeFor [.key parameter.name] = .ok parameter.type := by
  have hType : typeAt s.program.parameters [.key parameter.name] = some parameter.type :=
    typeAt_parameter hNames hParameter []
  obtain ⟨node, hNode, -⟩ := (fit_of_reachable hNames h).exists_at? hType
  exact typeFor_eq_ok_iff.mpr ⟨hType, node, hNode⟩

end Session

/-- A check at a place gives what it gives at the root, with the errors anchored at the place and put behind
those that there are. So the errors of a document are those of each parameter's literal alone, anchored at
the parameter; and an edit by which that literal is submitted is refused with the first of them. -/
theorem errors_anchored :
    (∀ type literal path errors, coerce type literal path errors =
      ((coerce type literal [] []).1, errors ++ (coerce type literal [] []).2.map (rebase path))) ∧
    (∀ document parameters entries, Supplies document parameters entries →
      errorsOf (checkInputs parameters document) = parameters.flatMap (errorsFor entries) ∧
      ((parameters.map Parameter.name).Nodup → ∀ parameter ∈ parameters,
        errorsBelow parameter.name (errorsOf (checkInputs parameters document)) =
          errorsFor entries parameter)) ∧
    (∀ document parameters literal, Literal.ofJson document = .ok literal →
      (∀ entries, ¬ Supplies document parameters entries) →
      ∀ error ∈ errorsOf (checkInputs parameters document), error.path = []) ∧
    (∀ members parameters error, Literal.ofJson (.object members) = .error error →
      errorsOf (checkInputs parameters (.object members)) = [error] ∧
      ∃ name item relative, (name, item) ∈ members ∧ Literal.ofJson item = .error relative ∧
        relative.rebase [.key name] = error) ∧
    (∀ (s : Session) path type literal answer, s.typeFor path = .ok type →
      s.Submitted path type literal answer →
      RefusedWith answer ((errorsOf (typecheck type literal)).map (rebase path))) ∧
    ∀ registry (s : Session) document entries parameter literal answer,
      Session.Reachable registry s → s.program.DistinctNames →
      Supplies document s.program.parameters entries → parameter ∈ s.program.parameters →
      entries.lookup parameter.name = some literal →
      s.Submitted [.key parameter.name] parameter.type literal answer →
      RefusedWith answer
        (errorsBelow parameter.name (errorsOf (checkInputs s.program.parameters document))) := by
  have hBelow : ∀ document parameters entries, Supplies document parameters entries →
      (parameters.map Parameter.name).Nodup → ∀ parameter ∈ parameters,
      errorsBelow parameter.name (errorsOf (checkInputs parameters document)) = errorsFor entries parameter := by
    intro document parameters entries hSupplies hDistinct parameter hParameter
    rw [hSupplies.errorsOf_checkInputs, errorsBelow_flatMap, filter_eq_singleton hDistinct hParameter,
      List.flatMap_singleton]
  refine ⟨fun type literal => (relative_coerce type literal).eq, ?_, ?_, ?_, ?_, ?_⟩
  · exact fun document parameters entries h => ⟨h.errorsOf_checkInputs, hBelow document parameters entries h⟩
  · exact fun document parameters literal hLiteral h error hError => path_eq_nil_of_not_supplies hLiteral h hError
  · intro members parameters error hError
    refine ⟨?_, exists_member_of_ofJson hError⟩
    rw [checkInputs, hError]
    rfl
  · exact fun s path type literal answer hType hSubmitted => hSubmitted.refusedWith hType
  · intro registry s document entries parameter literal answer hReachable hNames hSupplies hParameter hLiteral
      hSubmitted
    rw [hBelow document _ entries hSupplies hNames.1 parameter hParameter, errorsFor, hLiteral]
    exact hSubmitted.refusedWith (Session.typeFor_parameter hNames hReachable hParameter)

/-- The first owner has a text for the truth value of its share, and the tag of the second is too long. -/
def refusedOwners : InputTree :=
  .list [
    .struct [("tag", .string "eu"), ("share", .list [.zero, .string "yes"])],
    .struct [("tag", .string "asia"), ("share", .list [.zero, .boolean true])]]

theorem errors_anchored_owners :
    let parameters := Session.sample.program.parameters
    let textForBoolean : InputError :=
      ⟨[.key "owners", .index 0, .key "share", .index 1], .mismatch "a boolean" "string"⟩
    let tooLong : InputError := ⟨[.key "owners", .index 1, .key "tag"], .wrongLength 2 4⟩
    errorsBelow "owners" (errorsOf (checkInputs parameters
        (.object [("owners", refusedOwners.toJson), ("limit", .string "5")]))) = [textForBoolean, tooLong] ∧
      (Session.sample.editValue [.key "owners"] refusedOwners).1 = .ok (.rejected textForBoolean) ∧
      (∀ error ∈ errorsOf (checkInputs parameters (.object [("limit", .string "5")])), error.path = []) ∧
      errorsOf (checkInputs parameters (.object [("limit", .null)])) = [Literal.nullError [.key "limit"]] := by
  intro parameters textForBoolean tooLong
  obtain ⟨-, hDocument, hWhole, hNull, -, hEdit⟩ := errors_anchored
  let owners : Parameter :=
    ⟨"owners", .array 2 (.struct "Owner" [("tag", .string 2), ("share", .tuple [.field, .boolean])]), some .priv⟩
  have hOwners : owners ∈ parameters := .tail _ (.head _)
  have hNames : Session.sampleProgram.DistinctNames := Session.distinctNames_sampleRegistry _ (.head _)
  have hReachable : Session.Reachable Session.sampleRegistry Session.sample :=
    ⟨"vote", Session.sample, [], Session.start_sample, rfl⟩
  have hSupplies : Supplies (.object [("owners", refusedOwners.toJson), ("limit", .string "5")]) parameters
      [("owners", .ofTree refusedOwners), ("limit", .string "5")] := by
    refine ⟨rfl, fun name => ?_⟩
    simp [parameters, Entries.names, Session.sample, Session.sampleProgram, or_comm]
  have hErrors := ((hDocument _ _ _ hSupplies).2 hNames.1 owners hOwners).trans
    (show errorsFor _ owners = [textForBoolean, tooLong] from rfl)
  refine ⟨hErrors, ?_, ?_, (hNull _ parameters _ rfl).1⟩
  · have hRefused := hEdit _ _ _ _ owners _ _ hReachable hNames hSupplies hOwners rfl (.value rfl)
    exact (hRefused textForBoolean).mpr (congrArg List.head? hErrors)
  · refine hWhole _ parameters _ rfl fun entries hSupplies => ?_
    obtain ⟨⟨⟩, hNames⟩ := hSupplies
    exact absurd ((hNames "owners").mp (by decide)) (by decide)

end CircuitForm
