import CircuitForm.Proofs.Input.Document
import CircuitForm.Proofs.Input.Replacement
import CircuitForm.Proofs.Input.Synthesis
import CircuitForm.Proofs.Session.Effect

/-!
# Inputs of a session fit the selected program

Nothing checks a whole tree while a session runs. It fits because each operation keeps it so:
what is synthesized fits whatever it carries over, and an edit puts a checked value where a
value of the same type was.
-/

namespace CircuitForm

theorem Registry.lookup_of_resolve {registry : Registry} {requested name : String} {program : Program}
    (h : registry.resolve requested = some (name, program)) : registry.lookup name = some program := by
  rw [resolve] at h
  cases hRequested : registry.lookup requested with
  | some found =>
    rw [hRequested] at h
    cases h
    exact hRequested
  | none =>
    rw [hRequested] at h
    cases registry with
    | nil => cases h
    | cons entry rest =>
      cases h
      exact List.lookup_cons_self

namespace Session

theorem selected_target {t : Transition}
    (h : t.source.registry.lookup t.source.name = some t.source.program) :
    t.source.registry.lookup t.target.name = some t.target.program := by
  have hEffect := t.effect
  generalize t.event? = event at hEffect
  cases hEffect with
  | unchanged hTarget | rejected _ hTarget | stored _ _ hTarget | seeded _ hTarget =>
    rw [hTarget]
    exact h
  | committed _ _ _ _ _ _ _ _ hTarget =>
    rw [hTarget]
    exact h
  | selected requested name program hProgram hTarget =>
    rw [hTarget]
    exact Registry.lookup_of_resolve hProgram

theorem selected_of_reachable {registry : Registry} {s : Session} (h : Reachable registry s) :
    registry.lookup s.name = some s.program := by
  obtain ⟨name, first, operations, hStart, rfl⟩ := h
  obtain ⟨found, program, hProgram, rfl⟩ := exists_of_start hStart
  refine (run_induction (motive := fun s => s.registry = registry ∧ registry.lookup s.name = some s.program)
    ⟨rfl, Registry.lookup_of_resolve hProgram⟩ ?_ operations).2
  rintro s operation ⟨rfl, hSelected⟩
  exact ⟨registry_target ⟨s, operation⟩, @selected_target ⟨s, operation⟩ hSelected⟩

/-- An operation leaves inputs that fit the program selected after it, whatever the other programs of
the registry declare. -/
theorem fit_target {t : Transition} (hNames : t.target.program.DistinctNames)
    (h : t.source.program.DistinctNames → t.source.inputs.Fit t.source.program.parameters) :
    t.target.inputs.Fit t.target.program.parameters := by
  have hEffect := t.effect
  generalize t.event? = event at hEffect
  cases hEffect with
  | unchanged hTarget =>
    rw [hTarget] at hNames ⊢
    exact h hNames
  | stored artifact hDelivery hTarget =>
    rw [hTarget] at hNames ⊢
    exact h hNames
  | rejected path hTarget =>
    rw [hTarget] at hNames ⊢
    exact h hNames
  | committed path type literal value inputs hType hValue hInputs hTarget =>
    rw [hTarget] at hNames ⊢
    exact (h hNames).replace hType (fits_of_typecheck (hNames.typeAt hType) hValue) hInputs
  | selected requested name program hProgram hTarget =>
    rw [hTarget] at hNames ⊢
    exact fit_synthesizeInputs hNames _
  | seeded previous hTarget =>
    rw [hTarget] at hNames ⊢
    exact fit_synthesizeInputs hNames previous

theorem fit_of_reachable {registry : Registry} {s : Session} (hNames : s.program.DistinctNames)
    (h : Reachable registry s) : s.inputs.Fit s.program.parameters := by
  obtain ⟨name, first, operations, hStart, rfl⟩ := h
  refine run_induction (motive := fun s => s.program.DistinctNames → s.inputs.Fit s.program.parameters)
    ?_ (fun s operation hBefore hAfter => @fit_target ⟨s, operation⟩ hAfter hBefore) operations hNames
  obtain ⟨found, program, -, rfl⟩ := exists_of_start hStart
  exact fun hFirst => fit_synthesizeInputs hFirst []

/-- Where the inputs fit, an edit has an outcome exactly at the declared paths. -/
theorem exists_outcome_editBy_iff {s : Session} (hFit : s.inputs.Fit s.program.parameters) (path : Path)
    (checked : Descriptor → Except InputError InputTree) :
    (∃ outcome, (s.editBy path checked).1 = .ok outcome) ↔
      ∃ type, typeAt s.program.parameters path = some type := by
  cases hType : typeAt s.program.parameters path with
  | none =>
    have hError : s.typeFor path = .error (.shape ⟨path, .undeclared⟩) := by rw [typeFor, hType]
    rw [editBy_of_error hError]
    simp
  | some type =>
    obtain ⟨node, hNode, -⟩ := hFit.exists_at? hType
    refine iff_of_true ?_ ⟨type, rfl⟩
    rw [editBy_of_type (typeFor_eq_ok_iff.mpr ⟨hType, node, hNode⟩)]
    cases checked type with
    | error refusal => exact ⟨_, rfl⟩
    | ok value =>
      obtain ⟨inputs, hInputs⟩ := Inputs.exists_replace hNode value
      exact ⟨.committed, congrArg Prod.fst (settle_of_replace hInputs)⟩

structure Conforms (registry : Registry) (s : Session) : Prop where
  registry_eq : s.registry = registry
  selected : registry.lookup s.name = some s.program
  fit : s.inputs.Fit s.program.parameters

namespace Conforms

variable {registry : Registry} {s : Session}

theorem distinctNames (h : Conforms registry s) (hNames : registry.DistinctNames) :
    s.program.DistinctNames :=
  hNames (s.name, s.program) (Entries.mem_of_lookup h.selected)

theorem start (hNames : registry.DistinctNames) {name : String} (h : start registry name = .ok s) :
    Conforms registry s := by
  obtain ⟨found, program, hProgram, rfl⟩ := exists_of_start h
  have hLookup := Registry.lookup_of_resolve hProgram
  have hProgramNames := hNames (found, program) (Entries.mem_of_lookup hLookup)
  exact ⟨rfl, hLookup, fit_synthesizeInputs hProgramNames []⟩

theorem step (hNames : registry.DistinctNames) (h : Conforms registry s) (operation : Operation) :
    Conforms registry (s.step operation).2 := by
  let t : Transition := ⟨s, operation⟩
  have hRegistry : t.source.registry = registry := h.registry_eq
  have hSelected : registry.lookup t.target.name = some t.target.program :=
    hRegistry ▸ selected_target (hRegistry ▸ h.selected)
  have hTargetNames := hNames (t.target.name, t.target.program) (Entries.mem_of_lookup hSelected)
  exact ⟨(registry_target t).trans hRegistry, hSelected, fit_target hTargetNames fun _ => h.fit⟩

theorem of_reachable (hNames : registry.DistinctNames) (h : Reachable registry s) :
    Conforms registry s := by
  obtain ⟨name, first, operations, hStart, rfl⟩ := h
  exact run_induction (start hNames hStart) (fun _ operation hBefore => hBefore.step hNames operation)
    operations

theorem declared_iff (h : Conforms registry s) (path : Path) :
    (∃ type, typeAt s.program.parameters path = some type) ↔ ∃ node, s.inputs.at? path = some node := by
  have hNode := h.fit.at?_rel path
  generalize typeAt s.program.parameters path = declared, s.inputs.at? path = found at hNode ⊢
  cases hNode <;> simp

/-- An edit of a declared node is committed with whatever its check gives. -/
theorem editBy_of_checked (h : Conforms registry s) {path : Path} {type : Descriptor}
    (hType : typeAt s.program.parameters path = some type)
    {checked : Descriptor → Except InputError InputTree} {value : InputTree}
    (hChecked : checked type = .ok value) :
    ∃ inputs, s.inputs.replace path value = .ok inputs ∧ s.editBy path checked =
      (.ok .committed, { s.withInputs inputs with invalid := s.invalid.clearSubtree path }) := by
  obtain ⟨node, hNode⟩ := (h.declared_iff path).mp ⟨type, hType⟩
  obtain ⟨inputs, hInputs⟩ := Inputs.exists_replace hNode value
  refine ⟨inputs, hInputs, ?_⟩
  rw [editBy_of_type (typeFor_eq_ok_iff.mpr ⟨hType, node, hNode⟩), hChecked]
  exact settle_of_replace hInputs

theorem editBy_eq_error_iff (h : Conforms registry s) (hNames : registry.DistinctNames) {path : Path}
    {checked : Descriptor → Except InputError InputTree} (hChecked : Typechecks checked)
    {error : SessionError} :
    (s.editBy path checked).1 = .error error ↔
      typeAt s.program.parameters path = none ∧ error = .shape ⟨path, .undeclared⟩ := by
  cases hType : typeAt s.program.parameters path with
  | none =>
    have hError : s.typeFor path = .error (.shape ⟨path, .undeclared⟩) := by rw [typeFor, hType]
    rw [editBy_of_error hError]
    simp [eq_comm]
  | some type =>
    have hNode := (h.declared_iff path).mp ⟨type, hType⟩
    rw [editBy_of_type (typeFor_eq_ok_iff.mpr ⟨hType, hNode⟩)]
    cases hResult : checked type with
    | error refusal => simp [settle]
    | ok value =>
      obtain ⟨literal, hValue⟩ := hChecked type value hResult
      have hFits := fits_of_typecheck ((h.distinctNames hNames).typeAt hType) hValue
      obtain ⟨new, hNew, -⟩ := h.fit.exists_replace hType hFits
      simp [settle_of_replace hNew]

end Conforms

structure Mirrors (registry : Registry) (s : Session) : Prop where
  selected : registry.lookup s.name = some s.program
  /-- The declared names in the declared order, the arities and the leaves, at every level. -/
  shape : s.inputs.Fit s.program.parameters
  paths : ∀ path, (∃ type, typeAt s.program.parameters path = some type) ↔
    ∃ node, s.inputs.at? path = some node
  edits : ∀ path raw error, (s.edit path raw).1 = .error error ↔
    typeAt s.program.parameters path = none ∧ error = .shape ⟨path, .undeclared⟩
  valueEdits : ∀ path value error, (s.editValue path value).1 = .error error ↔
    typeAt s.program.parameters path = none ∧ error = .shape ⟨path, .undeclared⟩
  requests : ∀ ticket inputs, s.executionRequest = .ok (ticket, inputs) →
    checkInputs s.program.parameters inputs.toJson = .ok inputs

theorem mirrors_of_reachable {registry : Registry} (hNames : registry.DistinctNames) {s : Session}
    (h : Reachable registry s) : Mirrors registry s := by
  have hConforms := Conforms.of_reachable hNames h
  refine ⟨hConforms.selected, hConforms.fit, hConforms.declared_iff, ?_, ?_, ?_⟩
  · intro path raw error
    rw [edit_eq_editBy]
    exact hConforms.editBy_eq_error_iff hNames (typechecks_checkedText raw)
  · intro path value error
    rw [editValue_eq_editBy]
    exact hConforms.editBy_eq_error_iff hNames (typechecks_checkedValue value)
  · intro ticket inputs hRequest
    obtain ⟨-, -, rfl⟩ := executionRequest_eq_ok_iff.mp hRequest
    exact checkInputs_toJson (hConforms.distinctNames hNames) hConforms.fit

theorem mirrors_sample : Mirrors sampleRegistry
    (sample.run [.edit [.key "limit"] "-1", .editValue [.key "owners", .index 1]
      (.struct [("share", .list [.zero, .boolean true]), ("tag", .string "no")])]) :=
  mirrors_of_reachable distinctNames_sampleRegistry ⟨"vote", sample, _, start_sample, rfl⟩

end Session

end CircuitForm
