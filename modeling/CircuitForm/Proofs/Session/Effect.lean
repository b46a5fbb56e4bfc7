import Mathlib.Data.List.Induction
import CircuitForm.Proofs.Session.Completion
import CircuitForm.Proofs.Session.Editing
import CircuitForm.Proofs.Session.Run

/-!
# What an operation does

What happens to the program, the inputs and the invalid paths is read off one event: an edit is
committed or rejected, a selection or a seed renews the inputs. Without an event nothing happens
to them, and at most one artifact is stored. Everything that a run keeps is proved from this.
-/

namespace CircuitForm

/-- Where one name can be resolved there is a program, so every name can. -/
theorem Registry.exists_resolve {registry : Registry} {name : String} {found : String × Program}
    (h : registry.resolve name = some found) (requested : String) :
    ∃ entry, registry.resolve requested = some entry := by
  rw [resolve]
  cases registry.lookup requested with
  | some program => exact ⟨_, rfl⟩
  | none =>
    cases registry with
    | nil => cases h
    | cons entry rest => exact ⟨entry, rfl⟩

namespace Session

inductive Event where
  | rejected (path : Path)
  | committed (path : Path)
  | renewed

def Event.ofEdit (path : Path) : Except SessionError EditOutcome → Option Event
  | .ok .committed => some (.committed path)
  | .ok (.rejected _) => some (.rejected path)
  | .error _ => none

def Transition.event? (t : Transition) : Option Event :=
  match t.operation, t.answer with
  | .select _, .selected (.ok _) => some .renewed
  | .seed _, .seeded => some .renewed
  | .edit path _, .edited result => Event.ofEdit path result
  | .editValue path _, .edited result => Event.ofEdit path result
  | _, _ => none

/-- What the operation stores, and the ticket under which it does. -/
def Transition.delivery? (t : Transition) : Option (Ticket × Artifact) :=
  match t.operation, t.answer with
  | .completeExecution ticket (.ok execution), .completed (.ok true) =>
    some (ticket, .execution execution)
  | .completeProof ticket (.ok proof), .completed (.ok true) => some (ticket, .proof proof)
  | .completeVerification ticket (.ok verdict), .completed (.ok true) =>
    some (ticket, .verdict verdict)
  | .execute _, .executed (.ok execution) => some (t.source.ticket, .execution execution)
  | .prove _, .proved (.ok proof) => some (t.source.ticket, .proof proof)
  | .verify _, .verified (.ok verdict) => some (t.source.ticket, .verdict verdict)
  | _, _ => none

inductive Transition.Effect (t : Transition) : Option Event → Prop
  | unchanged (hTarget : t.target = t.source) : t.Effect none
  | stored (artifact : Artifact) (hDelivery : t.delivery? = some (t.source.ticket, artifact))
    (hTarget : t.target = t.source.store artifact) : t.Effect none
  | rejected (path : Path)
    (hTarget : t.target = { t.source with invalid := t.source.invalid.register path true }) :
    t.Effect (some (.rejected path))
  | committed (path : Path) (type : Descriptor) (literal : Literal) (value : InputTree)
    (inputs : Inputs) (hType : typeAt t.source.program.parameters path = some type)
    (hValue : typecheck type literal = .ok value)
    (hInputs : t.source.inputs.replace path value = .ok inputs)
    (hTarget : t.target =
      { t.source.withInputs inputs with invalid := t.source.invalid.clearSubtree path }) :
    t.Effect (some (.committed path))
  | selected (requested name : String) (program : Program)
    (hProgram : t.source.registry.resolve requested = some (name, program))
    (hTarget : t.target =
      { t.source.withInputs (synthesizeInputs program.parameters t.source.inputs) with
        name := name
        program := program
        invalid := .empty }) :
    t.Effect (some .renewed)
  | seeded (previous : Inputs) (hTarget : t.target = t.source.seed previous) :
    t.Effect (some .renewed)

theorem effect_of_editBy {t : Transition} {path : Path}
    {checked : Descriptor → Except InputError InputTree} (hChecked : Typechecks checked)
    (hEvent : t.event? = Event.ofEdit path (t.source.editBy path checked).1)
    (hTarget : t.target = (t.source.editBy path checked).2) : t.Effect t.event? := by
  rw [hEvent]
  obtain ⟨error, hEdit⟩ | ⟨refusal, hEdit⟩ | ⟨type, value, inputs, hType, hResult, hInputs, hEdit⟩ :=
    editBy_cases t.source path checked
  · rw [hEdit] at hTarget ⊢
    exact .unchanged hTarget
  · rw [hEdit] at hTarget ⊢
    exact .rejected path hTarget
  · obtain ⟨literal, hValue⟩ := hChecked type value hResult
    rw [hEdit] at hTarget ⊢
    exact .committed path type literal value inputs hType hValue hInputs hTarget

def Operation.editedPath? : Operation → Option Path
  | .edit path _ | .editValue path _ => some path
  | _ => none

theorem cases_of_editedPath {operation : Operation} {path : Path} (h : operation.editedPath? = some path) :
    (∃ raw, operation = .edit path raw) ∨ ∃ value, operation = .editValue path value := by
  cases operation with
  | edit edited raw =>
    cases h
    exact .inl ⟨raw, rfl⟩
  | editValue edited value =>
    cases h
    exact .inr ⟨value, rfl⟩
  | select | seed | ticket => cases h
  | requestExecution | completeExecution | execute => cases h
  | requestProof | completeProof | prove => cases h
  | requestVerification | completeVerification | verify => cases h

theorem step_of_editedPath {operation : Operation} {path : Path} (h : operation.editedPath? = some path) :
    ∃ checked, ∀ s : Session, s.step operation = (s.editBy path checked).map .edited id := by
  obtain ⟨raw, rfl⟩ | ⟨value, rfl⟩ := cases_of_editedPath h
  · exact ⟨checkedText raw, fun _ => rfl⟩
  · exact ⟨checkedValue value, fun _ => rfl⟩

theorem effect_of_select (s : Session) (requested : String) :
    Transition.Effect ⟨s, .select requested⟩ (Transition.event? ⟨s, .select requested⟩) := by
  unfold Transition.event? Transition.answer
  cases hProgram : s.registry.resolve requested with
  | none =>
    have hSelect : s.select requested = (.error .emptyRegistry, s) := by rw [select, hProgram]
    simp only [step, hSelect]
    exact .unchanged (by simp only [Transition.target, step, hSelect]; rfl)
  | some found =>
    obtain ⟨name, program⟩ := found
    simp only [step, select, hProgram]
    exact .selected requested name program hProgram (by simp only [Transition.target, step, select, hProgram]; rfl)

theorem effect_of_complete {ε α : Type} {t : Transition} {ticket : Ticket} {result : Except ε α}
    {failure : ε → SessionError} {artifact : α → Artifact} (hEvent : t.event? = none)
    (hTarget : t.target =
      (t.source.complete ticket result failure fun answer => t.source.artifacts.store (artifact answer)).2)
    (hDelivery : ∀ answer, result = .ok answer → ticket = t.source.ticket →
      t.delivery? = some (ticket, artifact answer)) : t.Effect t.event? := by
  rw [hEvent]
  by_cases hTicket : ticket = t.source.ticket
  · rw [complete_of_current _ _ _ hTicket] at hTarget
    cases result with
    | error error => exact .unchanged hTarget
    | ok answer => exact .stored (artifact answer) (hTicket ▸ hDelivery answer rfl hTicket) hTarget
  · rw [complete_of_stale _ _ _ hTicket] at hTarget
    exact .unchanged hTarget

theorem delivery?_execute (s : Session) (executor : Executor) :
    Transition.delivery? ⟨s, .execute executor⟩ =
      (s.execute executor).1.toOption.map fun execution => (s.ticket, .execution execution) := by
  simp only [Transition.delivery?, Transition.answer, step, Prod.map]
  cases (s.execute executor).1 <;> rfl

theorem delivery?_prove (s : Session) (prover : Prover) :
    Transition.delivery? ⟨s, .prove prover⟩ =
      (s.prove prover).1.toOption.map fun proof => (s.ticket, .proof proof) := by
  simp only [Transition.delivery?, Transition.answer, step, Prod.map]
  cases (s.prove prover).1 <;> rfl

theorem delivery?_verify (s : Session) (verifier : Verifier) :
    Transition.delivery? ⟨s, .verify verifier⟩ =
      (s.verify verifier).1.toOption.map fun verdict => (s.ticket, .verdict verdict) := by
  simp only [Transition.delivery?, Transition.answer, step, Prod.map]
  cases (s.verify verifier).1 <;> rfl

theorem effect_of_runStage {α β ε : Type} {t : Transition} {request : Except SessionError (Ticket × α)}
    {backend : Program → α → Except ε β} {failure : ε → SessionError} {artifact : β → Artifact}
    {stage : Except SessionError β × Session}
    (hStage : stage = t.source.runStage request backend failure artifact)
    (hEvent : t.event? = none) (hTarget : t.target = stage.2)
    (hDelivery : t.delivery? =
      stage.1.toOption.map fun answer => (t.source.ticket, artifact answer)) :
    t.Effect t.event? := by
  rw [hEvent]
  rw [hStage] at hTarget hDelivery
  rcases @runStage_cases α β ε t.source request backend failure artifact with
    ⟨error, hRun⟩ | ⟨handed, answer, -, hRun⟩
  · rw [hRun] at hTarget
    exact .unchanged hTarget
  · rw [hRun] at hTarget hDelivery
    exact .stored (artifact answer) hDelivery hTarget

theorem Transition.effect (t : Transition) : t.Effect t.event? := by
  obtain ⟨s, operation⟩ := t
  cases operation with
  | select requested => exact effect_of_select s requested
  | seed previous => exact .seeded previous rfl
  | edit path raw => exact effect_of_editBy (typechecks_checkedText raw) rfl rfl
  | editValue path value => exact effect_of_editBy (typechecks_checkedValue value) rfl rfl
  | ticket | requestExecution | requestProof | requestVerification => exact .unchanged rfl
  | completeExecution ticket result =>
    refine @effect_of_complete _ _ _ ticket result .execution .execution rfl rfl ?_
    rintro execution rfl hTicket
    simp only [delivery?, answer, step, completeExecution, complete_of_current _ _ _ hTicket]
    rfl
  | completeProof ticket result =>
    refine @effect_of_complete _ _ _ ticket result .proof .proof rfl rfl ?_
    rintro proof rfl hTicket
    simp only [delivery?, answer, step, completeProof, complete_of_current _ _ _ hTicket]
    rfl
  | completeVerification ticket result =>
    refine @effect_of_complete _ _ _ ticket result .verification .verdict rfl rfl ?_
    rintro verdict rfl hTicket
    simp only [delivery?, answer, step, completeVerification, complete_of_current _ _ _ hTicket]
    rfl
  | execute executor =>
    exact effect_of_runStage (execute_eq_runStage s executor) rfl rfl (delivery?_execute s executor)
  | prove prover =>
    exact effect_of_runStage (prove_eq_runStage s prover) rfl rfl (delivery?_prove s prover)
  | verify verifier =>
    exact effect_of_runStage (verify_eq_runStage s verifier) rfl rfl (delivery?_verify s verifier)

theorem artifacts_of_not_delivery {t : Transition} (h : t.delivery? = none) :
    t.target.artifacts = t.source.artifacts ∨ t.target.artifacts = {} := by
  have hEffect := t.effect
  generalize t.event? = event at hEffect
  cases hEffect with
  | stored artifact hDelivery _ => rw [h] at hDelivery; cases hDelivery
  | unchanged hTarget => exact .inl (by rw [hTarget])
  | rejected _ hTarget => exact .inl (by rw [hTarget])
  | committed _ _ _ _ _ _ _ _ hTarget => exact .inr (by rw [hTarget]; rfl)
  | selected _ _ _ _ hTarget => exact .inr (by rw [hTarget]; rfl)
  | seeded _ hTarget => exact .inr (by rw [hTarget]; rfl)

theorem registry_target (t : Transition) : t.target.registry = t.source.registry := by
  have hEffect := t.effect
  generalize t.event? = event at hEffect
  cases hEffect with
  | unchanged hTarget | rejected _ hTarget => rw [hTarget]
  | stored _ _ hTarget => rw [hTarget]; rfl
  | committed _ _ _ _ _ _ _ _ hTarget | selected _ _ _ _ hTarget | seeded _ hTarget =>
    rw [hTarget]
    rfl

theorem registry_run (first : Session) (operations : List Operation) :
    (first.run operations).registry = first.registry :=
  run_induction (motive := fun s => s.registry = first.registry) rfl
    (fun s operation h => (registry_target ⟨s, operation⟩).trans h) operations

section

variable {registry : Registry} {name : String} {first : Session}

theorem exists_of_start (h : start registry name = .ok first) :
    ∃ found program, registry.resolve name = some (found, program) ∧
      first = {
        registry := registry
        name := found
        program := program
        inputs := synthesizeInputs program.parameters []
        invalid := .empty
        artifacts := {}
        revision := 0 } := by
  rw [start] at h
  cases hProgram : registry.resolve name with
  | none => rw [hProgram] at h; cases h
  | some entry =>
    rw [hProgram] at h
    cases h
    exact ⟨entry.1, entry.2, rfl, rfl⟩

theorem invalid_start (h : start registry name = .ok first) : first.invalid = .empty := by
  obtain ⟨_, _, -, rfl⟩ := exists_of_start h
  rfl

theorem artifacts_start (h : start registry name = .ok first) : first.artifacts = {} := by
  obtain ⟨_, _, -, rfl⟩ := exists_of_start h
  rfl

theorem event?_select (h : start registry name = .ok first) (operations : List Operation)
    (requested : String) :
    Transition.event? ⟨first.run operations, .select requested⟩ = some .renewed := by
  obtain ⟨found, program, hProgram, hFirst⟩ := exists_of_start h
  have hRegistry : (first.run operations).registry = registry := by rw [registry_run, hFirst]
  obtain ⟨entry, hEntry⟩ := Registry.exists_resolve hProgram requested
  simp only [Transition.event?, Transition.answer, step, select, hRegistry, hEntry, Prod.map]

end

def sampleProgram : Program where
  version := none
  hash := none
  parameters := [
    ⟨"limit", .integer .unsigned 64, some .pub⟩,
    ⟨"owners", .array 2 (.struct "Owner" [("tag", .string 2), ("share", .tuple [.field, .boolean])]),
      some .priv⟩]
  returnType := none
  bytecode := ""

def sampleRegistry : Registry :=
  [("vote", sampleProgram)]

def sample : Session where
  registry := sampleRegistry
  name := "vote"
  program := sampleProgram
  inputs := synthesizeInputs sampleProgram.parameters []
  invalid := .empty
  artifacts := {}
  revision := 0

theorem start_sample : start sampleRegistry "vote" = .ok sample := rfl

theorem distinctNames_sampleRegistry : sampleRegistry.DistinctNames := by
  intro entry hEntry
  obtain rfl := List.mem_singleton.mp hEntry
  refine ⟨by decide, ?_⟩
  simp [sampleProgram, Descriptor.DistinctNames, Descriptor.DistinctNamesFields,
    Descriptor.DistinctNamesEach, Entries.Distinct]

end Session

end CircuitForm
