import CircuitForm.Session.Basic

/-!
# Requests and completions

What a request hands out is stamped with the revision of the session, so a stage that is run at
once always completes with a current ticket. A completion that is current stores one artifact,
and with it drops those of the stages after it.
-/

namespace CircuitForm

inductive Artifact where
  | execution (execution : Execution)
  | proof (proof : Proof)
  | verdict (verdict : Bool)

namespace Artifacts

def store (artifacts : Artifacts) : Artifact → Artifacts
  | .execution execution => { execution := some execution }
  | .proof proof => { artifacts with proof := some proof, verdict := none }
  | .verdict verdict => { artifacts with verdict := some verdict }

def Holds (artifacts : Artifacts) : Artifact → Prop
  | .execution execution => artifacts.execution = some execution
  | .proof proof => artifacts.proof = some proof
  | .verdict verdict => artifacts.verdict = some verdict

theorem not_holds_empty (artifact : Artifact) : ¬ Holds {} artifact := by
  cases artifact <;> simp [Holds]

theorem holds_store {artifacts : Artifacts} {stored artifact : Artifact}
    (h : (artifacts.store stored).Holds artifact) : artifact = stored ∨ artifacts.Holds artifact := by
  cases stored <;> cases artifact <;> simp_all [store, Holds]

end Artifacts

namespace Session

def store (s : Session) (artifact : Artifact) : Session :=
  { s with artifacts := s.artifacts.store artifact }

theorem isCurrent_iff {s : Session} {ticket : Ticket} : s.isCurrent ticket = true ↔ ticket = s.ticket := by
  obtain ⟨revision⟩ := ticket
  simp [isCurrent, Session.ticket]

theorem executionRequest_eq_ok_iff {s : Session} {ticket : Ticket} {inputs : Inputs} :
    s.executionRequest = .ok (ticket, inputs) ↔
      s.canExecute = true ∧ ticket = s.ticket ∧ inputs = s.inputs := by
  rw [executionRequest]
  cases s.canExecute with
  | false => simp
  | true => simp [@eq_comm _ ticket, @eq_comm _ inputs]

theorem proofRequest_eq_ok_iff {s : Session} {ticket : Ticket} {witness : List UInt8} :
    s.proofRequest = .ok (ticket, witness) ↔
      ticket = s.ticket ∧ s.artifacts.execution.map Execution.witness = some witness := by
  rw [proofRequest]
  cases s.artifacts.execution <;> simp [@eq_comm _ ticket]

theorem verificationRequest_eq_ok_iff {s : Session} {ticket : Ticket} {proof : Proof} :
    s.verificationRequest = .ok (ticket, proof) ↔
      ticket = s.ticket ∧ s.artifacts.proof = some proof := by
  rw [verificationRequest]
  cases s.artifacts.proof <;> simp [@eq_comm _ ticket]

section

variable {ε α : Type} {s : Session} {ticket : Ticket} (result : Except ε α)
  (failure : ε → SessionError) (store : α → Artifacts)

theorem complete_of_current (h : ticket = s.ticket) :
    s.complete ticket result failure store =
      match result with
      | .ok answer => (.ok true, { s with artifacts := store answer })
      | .error error => (.error (failure error), s) :=
  if_pos (isCurrent_iff.mpr h)

theorem complete_of_stale (h : ticket ≠ s.ticket) :
    s.complete ticket result failure store = (.ok false, s) :=
  if_neg fun hCurrent => h (isCurrent_iff.mp hCurrent)

end

/-- A stage that is run at once: its request, what the backend answers, and the completion. -/
def runStage {α β ε : Type} (s : Session) (request : Except SessionError (Ticket × α))
    (backend : Program → α → Except ε β) (failure : ε → SessionError) (artifact : β → Artifact) :
    Except SessionError β × Session :=
  match request with
  | .error error => (.error error, s)
  | .ok (_, handed) =>
    match backend s.program handed with
    | .ok answer => (.ok answer, s.store (artifact answer))
    | .error error => (.error (failure error), s)

theorem execute_eq_runStage (s : Session) (executor : Executor) :
    s.execute executor = s.runStage s.executionRequest executor .execution .execution := by
  unfold execute runStage
  cases hRequest : s.executionRequest with
  | error _ => rfl
  | ok handed =>
    obtain ⟨-, hTicket, -⟩ := executionRequest_eq_ok_iff.mp hRequest
    simp only [completeExecution, complete_of_current _ _ _ hTicket]
    cases executor s.program handed.2 <;> rfl

theorem prove_eq_runStage (s : Session) (prover : Prover) :
    s.prove prover = s.runStage s.proofRequest prover .proof .proof := by
  unfold prove runStage
  cases hRequest : s.proofRequest with
  | error _ => rfl
  | ok handed =>
    obtain ⟨hTicket, -⟩ := proofRequest_eq_ok_iff.mp hRequest
    simp only [completeProof, complete_of_current _ _ _ hTicket]
    cases prover s.program handed.2 <;> rfl

theorem verify_eq_runStage (s : Session) (verifier : Verifier) :
    s.verify verifier = s.runStage s.verificationRequest verifier .verification .verdict := by
  unfold verify runStage
  cases hRequest : s.verificationRequest with
  | error _ => rfl
  | ok handed =>
    obtain ⟨hTicket, -⟩ := verificationRequest_eq_ok_iff.mp hRequest
    simp only [completeVerification, complete_of_current _ _ _ hTicket]
    cases verifier s.program handed.2 <;> rfl

section

variable {α β ε : Type} {s : Session} {request : Except SessionError (Ticket × α)}
  {backend : Program → α → Except ε β} {failure : ε → SessionError} {artifact : β → Artifact}

theorem runStage_cases :
    (∃ error, s.runStage request backend failure artifact = (.error error, s)) ∨
      ∃ handed answer, request = .ok handed ∧
        s.runStage request backend failure artifact = (.ok answer, s.store (artifact answer)) := by
  cases request with
  | error error => exact .inl ⟨error, rfl⟩
  | ok handed =>
    rw [runStage]
    cases backend s.program handed.2 with
    | error error => exact .inl ⟨failure error, rfl⟩
    | ok answer => exact .inr ⟨handed, answer, rfl, rfl⟩

end

end Session

end CircuitForm
