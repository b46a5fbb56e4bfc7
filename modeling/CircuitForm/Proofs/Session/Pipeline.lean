import CircuitForm.Proofs.Session.Conformance
import CircuitForm.Proofs.Session.Gate
import CircuitForm.Proofs.Session.Staleness

/-!
# Stages that are run at once

A stage that is run at once asks its backend only if it has something to hand on, and then gives back
what the backend answers. So in a run without completions whatever is stored was an answer about what
the session has: an execution about its program and inputs, a proof about the witness and a verdict
about the proof.
-/

namespace CircuitForm

namespace Session

/-- `prove` for a prover whose call is an effect. -/
def proveIn {m : Type → Type} [Monad m] (s : Session)
    (prover : Program → List UInt8 → m (Except ProofError Proof)) :
    m (Except SessionError Proof × Session) :=
  match s.proofRequest with
  | .error error => pure (.error error, s)
  | .ok (ticket, witness) => do
    let result ← prover s.program witness
    match s.completeProof ticket result with
    | (.error error, s) => pure (.error error, s)
    | (.ok _, s) =>
      match s.artifacts.proof with
      | some proof => pure (.ok proof, s)
      | none => pure (.error .missingProof, s)

/-- `verify` for a verifier whose call is an effect. -/
def verifyIn {m : Type → Type} [Monad m] (s : Session)
    (verifier : Program → Proof → m (Except VerificationError Bool)) :
    m (Except SessionError Bool × Session) :=
  match s.verificationRequest with
  | .error error => pure (.error error, s)
  | .ok (ticket, proof) => do
    let result ← verifier s.program proof
    match s.completeVerification ticket result with
    | (.error error, s) => pure (.error error, s)
    | (.ok _, s) =>
      match s.artifacts.verdict with
      | some verdict => pure (.ok verdict, s)
      | none => pure (.error .missingProof, s)

/-- What a stage gives once its backend has answered, and the session after it. -/
def answered {β ε : Type} (s : Session) (failure : ε → SessionError) (artifact : β → Artifact) :
    Except ε β → Except SessionError β × Session
  | .ok answer => (.ok answer, s.store (artifact answer))
  | .error error => (.error (failure error), s)

/-- `runStage` for a backend whose call is an effect. -/
def runStageIn {m : Type → Type} [Monad m] {α β ε : Type} (s : Session)
    (request : Except SessionError (Ticket × α)) (backend : Program → α → m (Except ε β))
    (failure : ε → SessionError) (artifact : β → Artifact) : m (Except SessionError β × Session) :=
  match request with
  | .error error => pure (.error error, s)
  | .ok (_, handed) => do
    let result ← backend s.program handed
    pure (s.answered failure artifact result)

theorem runStageIn_id {α β ε : Type} (s : Session) (request : Except SessionError (Ticket × α))
    (backend : Program → α → Except ε β) (failure : ε → SessionError) (artifact : β → Artifact) :
    @runStageIn Id _ _ _ _ s request backend failure artifact =
      s.runStage request backend failure artifact := by
  cases request with
  | error _ => rfl
  | ok handed =>
    rw [runStageIn, runStage]
    cases backend s.program handed.2 <;> rfl

section

variable {m : Type → Type} [Monad m] (s : Session)

theorem executeIn_eq_runStageIn (executor : Program → Inputs → m (Except ExecutionError Execution)) :
    s.executeIn executor = s.runStageIn s.executionRequest executor .execution .execution := by
  unfold executeIn runStageIn
  cases hRequest : s.executionRequest with
  | error _ => rfl
  | ok handed =>
    obtain ⟨-, hTicket, -⟩ := executionRequest_eq_ok_iff.mp hRequest
    refine bind_congr fun result => ?_
    rw [completeExecution, complete_of_current _ _ _ hTicket]
    cases result <;> rfl

theorem proveIn_eq_runStageIn (prover : Program → List UInt8 → m (Except ProofError Proof)) :
    s.proveIn prover = s.runStageIn s.proofRequest prover .proof .proof := by
  unfold proveIn runStageIn
  cases hRequest : s.proofRequest with
  | error _ => rfl
  | ok handed =>
    obtain ⟨hTicket, -⟩ := proofRequest_eq_ok_iff.mp hRequest
    refine bind_congr fun result => ?_
    rw [completeProof, complete_of_current _ _ _ hTicket]
    cases result <;> rfl

theorem verifyIn_eq_runStageIn (verifier : Program → Proof → m (Except VerificationError Bool)) :
    s.verifyIn verifier = s.runStageIn s.verificationRequest verifier .verification .verdict := by
  unfold verifyIn runStageIn
  cases hRequest : s.verificationRequest with
  | error _ => rfl
  | ok handed =>
    obtain ⟨hTicket, -⟩ := verificationRequest_eq_ok_iff.mp hRequest
    refine bind_congr fun result => ?_
    rw [completeVerification, complete_of_current _ _ _ hTicket]
    cases result <;> rfl

end

def handedInputs (s : Session) : Option Inputs :=
  if s.canExecute then some s.inputs else none

theorem handedInputs_eq_some_iff {s : Session} {inputs : Inputs} :
    s.handedInputs = some inputs ↔ s.canExecute = true ∧ s.inputs = inputs := by
  rw [handedInputs, Option.ite_none_right_eq_some, Option.some_inj]

def handedWitness (s : Session) : Option (List UInt8) :=
  s.artifacts.execution.map Execution.witness

/-- The request for what there is to hand on. -/
def requestFor {α : Type} (s : Session) (closed : SessionError) (handed : Option α) :
    Except SessionError (Ticket × α) :=
  handed.elim (.error closed) fun given => .ok (s.ticket, given)

theorem executionRequest_eq_requestFor (s : Session) :
    s.executionRequest = s.requestFor (.executionGated s.invalid.count) s.handedInputs := by
  rw [executionRequest, handedInputs]
  cases s.canExecute <;> rfl

theorem proofRequest_eq_requestFor (s : Session) :
    s.proofRequest = s.requestFor .missingWitness s.handedWitness := by
  rw [proofRequest, handedWitness]
  cases s.artifacts.execution <;> rfl

theorem verificationRequest_eq_requestFor (s : Session) :
    s.verificationRequest = s.requestFor .missingProof s.artifacts.proof := by
  rw [verificationRequest]
  cases s.artifacts.proof <;> rfl

/-- A stage asks its backend once, about the selected program, if there is something to hand on, and
fails without asking if there is nothing. The stage is given for a backend that is a function and for
one whose call is an effect. -/
structure AsksOnce {α β ε : Type} (s : Session) (handed : Option α) (closed : SessionError)
    (failure : ε → SessionError) (artifact : β → Artifact)
    (stage : (Program → α → Except ε β) → Except SessionError β × Session)
    (stageIn : ∀ (m : Type → Type) [Monad m],
      (Program → α → m (Except ε β)) → m (Except SessionError β × Session)) : Prop where
  stage_eq : ∀ backend, stage backend = stageIn Id backend
  opened : ∀ given, handed = some given →
    ∀ (m : Type → Type) [Monad m] (backend : Program → α → m (Except ε β)),
      stageIn m backend = do
        let result ← backend s.program given
        pure (s.answered failure artifact result)
  closed : handed = none →
    ∀ (m : Type → Type) [Monad m] (backend : Program → α → m (Except ε β)),
      stageIn m backend = pure (.error closed, s)

section

variable {α β ε : Type} {s : Session} {handed : Option α} {closed : SessionError}
  {failure : ε → SessionError} {artifact : β → Artifact}
  {stage : (Program → α → Except ε β) → Except SessionError β × Session}
  {stageIn : ∀ (m : Type → Type) [Monad m],
    (Program → α → m (Except ε β)) → m (Except SessionError β × Session)}

theorem asksOnce_of_runStage {request : Except SessionError (Ticket × α)}
    (hRequest : request = s.requestFor closed handed)
    (hStage : ∀ backend, stage backend = s.runStage request backend failure artifact)
    (hStageIn : ∀ (m : Type → Type) [Monad m] (backend : Program → α → m (Except ε β)),
      stageIn m backend = s.runStageIn request backend failure artifact) :
    s.AsksOnce handed closed failure artifact stage stageIn where
  stage_eq backend := by rw [hStage, hStageIn, runStageIn_id]
  opened given hGiven m _ backend := by
    subst hRequest hGiven
    exact hStageIn m backend
  closed hNone m _ backend := by
    subst hRequest hNone
    exact hStageIn m backend

theorem AsksOnce.of_ok (h : s.AsksOnce handed closed failure artifact stage stageIn)
    {backend : Program → α → Except ε β} {answer : β} (hAnswer : (stage backend).1 = .ok answer) :
    ∃ given, handed = some given ∧ backend s.program given = .ok answer ∧
      (stage backend).2 = s.store (artifact answer) := by
  cases handed with
  | none =>
    have hStage : stage backend = (.error closed, s) := (h.stage_eq backend).trans (h.closed rfl Id backend)
    rw [hStage] at hAnswer
    cases hAnswer
  | some given =>
    have hStage : stage backend = s.answered failure artifact (backend s.program given) :=
      (h.stage_eq backend).trans (h.opened given rfl Id backend)
    refine ⟨given, rfl, ?_⟩
    rw [hStage] at hAnswer ⊢
    cases hBackend : backend s.program given with
    | error error =>
      rw [hBackend] at hAnswer
      cases hAnswer
    | ok found =>
      rw [hBackend] at hAnswer
      cases hAnswer
      exact ⟨rfl, rfl⟩

end

theorem asksOnce_execute (s : Session) :
    s.AsksOnce s.handedInputs (.executionGated s.invalid.count) .execution .execution s.execute
      fun _ => s.executeIn :=
  asksOnce_of_runStage s.executionRequest_eq_requestFor s.execute_eq_runStage
    fun _ => s.executeIn_eq_runStageIn

theorem asksOnce_prove (s : Session) :
    s.AsksOnce s.handedWitness .missingWitness .proof .proof s.prove fun _ => s.proveIn :=
  asksOnce_of_runStage s.proofRequest_eq_requestFor s.prove_eq_runStage fun _ => s.proveIn_eq_runStageIn

theorem asksOnce_verify (s : Session) :
    s.AsksOnce s.artifacts.proof .missingProof .verification .verdict s.verify fun _ => s.verifyIn :=
  asksOnce_of_runStage s.verificationRequest_eq_requestFor s.verify_eq_runStage
    fun _ => s.verifyIn_eq_runStageIn

/-- What a backend was given, and what it answered. -/
inductive Call where
  | execution (program : Program) (inputs : Inputs) (answer : Except ExecutionError Execution)
  | proof (program : Program) (witness : List UInt8) (answer : Except ProofError Proof)
  | verification (program : Program) (proof : Proof) (answer : Except VerificationError Bool)

/-- The call that the operation makes to its backend, if its stage is open. -/
def Transition.call? (t : Transition) : Option Call :=
  match t.operation with
  | .execute executor => t.source.handedInputs.map fun inputs =>
    .execution t.source.program inputs (executor t.source.program inputs)
  | .prove prover => t.source.handedWitness.map fun witness =>
    .proof t.source.program witness (prover t.source.program witness)
  | .verify verifier => t.source.artifacts.proof.map fun proof =>
    .verification t.source.program proof (verifier t.source.program proof)
  | _ => none

/-- The call was about what the session has, and the artifact was the answer. -/
def Call.Yields (call : Call) (s : Session) : Artifact → Prop
  | .execution answer => call = .execution s.program s.inputs (.ok answer)
  | .proof answer => ∃ run, s.artifacts.execution = some run ∧ call = .proof s.program run.witness (.ok answer)
  | .verdict answer => ∃ proved, s.artifacts.proof = some proved ∧
    call = .verification s.program proved (.ok answer)

/-- What is still held after another artifact is stored was about what that has left in place. -/
theorem Call.Yields.store {call : Call} {s : Session} {stored artifact : Artifact}
    (h : call.Yields s artifact) (hHolds : (s.store stored).artifacts.Holds artifact) :
    call.Yields (s.store stored) artifact := by
  cases artifact with
  | execution execution => exact h
  | proof proof =>
    cases stored with
    | execution _ => cases hHolds
    | proof _ | verdict _ => exact h
  | verdict verdict =>
    cases stored with
    | execution _ | proof _ => cases hHolds
    | verdict _ => exact h

theorem exists_answer_of_delivery {β : Type} {t : Transition} {result : Except SessionError β}
    {artifact : β → Artifact} {ticket : Ticket} {stored : Artifact}
    (hDelivery : t.delivery? = result.toOption.map fun answer => (t.source.ticket, artifact answer))
    (h : t.delivery? = some (ticket, stored)) : ∃ answer, result = .ok answer ∧ stored = artifact answer := by
  rw [hDelivery] at h
  cases result with
  | error _ => cases h
  | ok answer =>
    cases h
    exact ⟨answer, rfl, rfl⟩

theorem exists_call_of_delivery {t : Transition} (hAtOnce : t.operation.redeemed? = none)
    {ticket : Ticket} {artifact : Artifact} (h : t.delivery? = some (ticket, artifact)) :
    ∃ call, t.call? = some call ∧ call.Yields t.source artifact := by
  obtain ⟨s, operation⟩ := t
  cases operation with
  | execute executor =>
    obtain ⟨execution, hResult, rfl⟩ := exists_answer_of_delivery (delivery?_execute s executor) h
    obtain ⟨inputs, hInputs, hAnswer, -⟩ := s.asksOnce_execute.of_ok hResult
    obtain ⟨-, rfl⟩ := handedInputs_eq_some_iff.mp hInputs
    exact ⟨_, congrArg (Option.map _) hInputs, congrArg (Call.execution _ _) hAnswer⟩
  | prove prover =>
    obtain ⟨proof, hResult, rfl⟩ := exists_answer_of_delivery (delivery?_prove s prover) h
    obtain ⟨witness, hWitness, hAnswer, -⟩ := s.asksOnce_prove.of_ok hResult
    obtain ⟨execution, hExecution, rfl⟩ := Option.map_eq_some_iff.mp hWitness
    exact ⟨_, congrArg (Option.map _) hWitness, execution, hExecution, congrArg (Call.proof _ _) hAnswer⟩
  | verify verifier =>
    obtain ⟨verdict, hResult, rfl⟩ := exists_answer_of_delivery (delivery?_verify s verifier) h
    obtain ⟨proof, hProof, hAnswer, -⟩ := s.asksOnce_verify.of_ok hResult
    exact ⟨_, congrArg (Option.map _) hProof, proof, hProof, congrArg (Call.verification _ _) hAnswer⟩
  | select | seed | edit | editValue => cases h
  | ticket | requestExecution | requestProof | requestVerification => cases h
  | completeExecution | completeProof | completeVerification => cases hAtOnce

def calls (history : List Transition) : List Call :=
  history.filterMap Transition.call?

/-- Whatever is stored was answered by a call about what the session has. -/
def Sourced (history : List Transition) (s : Session) : Prop :=
  ∀ artifact, s.artifacts.Holds artifact → ∃ call ∈ calls history, call.Yields s artifact

theorem Sourced.step {history : List Transition} {t : Transition} (h : Sourced history t.source)
    (hAtOnce : t.operation.redeemed? = none) : Sourced (history ++ [t]) t.target := by
  intro artifact hHolds
  have hKept : ∀ call ∈ calls history, call ∈ calls (history ++ [t]) := fun call hCall => by
    rw [calls, List.filterMap_append]
    exact List.mem_append_left _ hCall
  have hEffect := t.effect
  have hChanges := @target_of_changes t
  rw [Transition.changesInputs] at hChanges
  generalize t.event? = event at hEffect hChanges
  cases hEffect with
  | unchanged hTarget | rejected path hTarget =>
    rw [hTarget] at hHolds ⊢
    obtain ⟨call, hCall, hYields⟩ := h artifact hHolds
    exact ⟨call, hKept call hCall, hYields⟩
  | stored stored hDelivery hTarget =>
    rw [hTarget] at hHolds ⊢
    rcases Artifacts.holds_store hHolds with rfl | hBefore
    · obtain ⟨call, hCall, hYields⟩ := exists_call_of_delivery hAtOnce hDelivery
      refine ⟨call, ?_, hYields.store hHolds⟩
      simp [calls, hCall]
    · obtain ⟨call, hCall, hYields⟩ := h artifact hBefore
      exact ⟨call, hKept call hCall, hYields.store hHolds⟩
  | committed | selected | seeded =>
    rw [(hChanges rfl).2] at hHolds
    exact absurd hHolds (Artifacts.not_holds_empty artifact)

theorem sourced_history {first : Session} (hFirst : first.artifacts = {}) {operations : List Operation}
    (hAtOnce : ∀ operation ∈ operations, operation.redeemed? = none) :
    Sourced (first.history operations) (first.run operations) := by
  induction operations using List.reverseRecOn with
  | nil =>
    intro artifact hHolds
    rw [run, hFirst] at hHolds
    exact absurd hHolds (Artifacts.not_holds_empty artifact)
  | append_singleton before operation ih =>
    rw [List.forall_mem_append, List.forall_mem_singleton] at hAtOnce
    rw [history_concat, run_concat]
    exact @Sourced.step _ ⟨first.run before, operation⟩ (ih hAtOnce.1) hAtOnce.2

/-- Each stage asks its backend once and only if it is open, a result drops those of the stages after it,
and what is stored was an answer about what the session has. -/
structure Pipelined (registry : Registry) (history : List Transition) (s : Session) : Prop where
  selected : registry.lookup s.name = some s.program
  canExecute_iff : s.canExecute = true ↔ ∀ path, s.invalid.isInvalid path = false
  execute : s.AsksOnce s.handedInputs (.executionGated s.invalid.count) .execution .execution s.execute
    fun _ => s.executeIn
  prove : s.AsksOnce s.handedWitness .missingWitness .proof .proof s.prove fun _ => s.proveIn
  verify : s.AsksOnce s.artifacts.proof .missingProof .verification .verdict s.verify fun _ => s.verifyIn
  executed : ∀ executor execution, (s.execute executor).1 = .ok execution →
    (s.execute executor).2.artifacts = { execution := some execution }
  proved : ∀ prover proof, (s.prove prover).1 = .ok proof →
    (s.prove prover).2.artifacts = { execution := s.artifacts.execution, proof := some proof }
  sourced : Sourced history s

theorem pipelined_history {registry : Registry} {name : String} {first : Session}
    (hStart : start registry name = .ok first) {operations : List Operation}
    (hAtOnce : ∀ operation ∈ operations, operation.redeemed? = none) :
    Pipelined registry (first.history operations) (first.run operations) := by
  have hSelected := selected_of_reachable ⟨name, first, operations, hStart, rfl⟩
  have hSourced := sourced_history (artifacts_start hStart) hAtOnce
  have hCanonical := canonical_run (invalid_start hStart) operations
  generalize first.run operations = s, first.history operations = history at hSelected hSourced hCanonical ⊢
  refine ⟨hSelected, ?_, asksOnce_execute s, asksOnce_prove s, asksOnce_verify s, ?_, ?_, hSourced⟩
  · rw [canExecute, Bool.not_eq_true', ← Bool.not_eq_true, hCanonical.anyInvalid_iff, not_exists]
    simp only [Bool.not_eq_true]
  · intro executor execution hResult
    obtain ⟨-, -, -, hAfter⟩ := s.asksOnce_execute.of_ok hResult
    rw [hAfter]
    rfl
  · intro prover proof hResult
    obtain ⟨-, -, -, hAfter⟩ := s.asksOnce_prove.of_ok hResult
    rw [hAfter]
    rfl

def sampleStages : List Operation :=
  [.execute fun _ _ => .error (.backend "offline"),
    .execute fun _ inputs => .ok ⟨[UInt8.ofNat inputs.length], none⟩,
    .prove fun _ witness => .ok ⟨7 :: witness, []⟩,
    .edit [.key "limit"] "-1",
    .verify fun _ proof => .ok proof.bytes.isEmpty]

theorem pipelined_sample :
    (sample.run sampleStages).artifacts.proof = some ⟨[7, 2], []⟩ ∧
      (sample.run sampleStages).artifacts.verdict = some false ∧
        Pipelined sampleRegistry (sample.history sampleStages) (sample.run sampleStages) :=
  ⟨rfl, rfl, pipelined_history start_sample (by simp [sampleStages, Operation.redeemed?])⟩

end Session

end CircuitForm
