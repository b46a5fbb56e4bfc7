import CircuitForm.Proofs.Session.Staleness

/-!
# Requests in flight

A session exchanges requests and results with backends that may take their time: each result
answers one numbered request, comes with its ticket and was made from what it handed out. A
ticket tells a change of the inputs but not a stage that was run again on the same inputs, so a
late result can be stored beside artifacts that it does not belong to.
-/

namespace CircuitForm

inductive Request where
  | execution (ticket : Ticket) (inputs : Inputs)
  | proof (ticket : Ticket) (witness : List UInt8)
  | verification (ticket : Ticket) (proof : Proof)

/-- A session, the requests it made, and what its last proof and its last verdict were made from. -/
structure Exchange where
  session : Session
  requests : List Request
  provedWitness : Option (List UInt8)
  verifiedProof : Option Proof

namespace Exchange

open Session (Transition)

def begin (session : Session) : Exchange :=
  ⟨session, [], none, none⟩

/-- A delivery names its request; the result may be any that a backend gives. -/
inductive Event where
  | select (name : String)
  | seed (previous : Inputs)
  | edit (path : Path) (raw : String)
  | editValue (path : Path) (value : InputTree)
  | requestExecution
  | requestProof
  | requestVerification
  | deliverExecution (request : Nat) (result : Except ExecutionError Execution)
  | deliverProof (request : Nat) (result : Except ProofError Proof)
  | deliverVerification (request : Nat) (result : Except VerificationError Bool)

def record (e : Exchange) : Except SessionError Request → Exchange
  | .ok request => { e with requests := e.requests ++ [request] }
  | .error _ => e

def takeProof (e : Exchange) (ticket : Ticket) (witness : List UInt8)
    (result : Except ProofError Proof) : Exchange :=
  match e.session.completeProof ticket result with
  | (.ok true, s) => { e with session := s, provedWitness := some witness }
  | (_, s) => { e with session := s }

def takeVerdict (e : Exchange) (ticket : Ticket) (proof : Proof)
    (result : Except VerificationError Bool) : Exchange :=
  match e.session.completeVerification ticket result with
  | (.ok true, s) => { e with session := s, verifiedProof := some proof }
  | (_, s) => { e with session := s }

def step (e : Exchange) : Event → Exchange
  | .select name => { e with session := (e.session.select name).2 }
  | .seed previous => { e with session := e.session.seed previous }
  | .edit path raw => { e with session := (e.session.edit path raw).2 }
  | .editValue path value => { e with session := (e.session.editValue path value).2 }
  | .requestExecution => e.record (e.session.executionRequest.map fun (t, inputs) => .execution t inputs)
  | .requestProof => e.record (e.session.proofRequest.map fun (t, witness) => .proof t witness)
  | .requestVerification =>
    e.record (e.session.verificationRequest.map fun (t, proof) => .verification t proof)
  | .deliverExecution request result =>
    match e.requests[request]? with
    | some (.execution ticket _) =>
      { e with session := (e.session.completeExecution ticket result).2 }
    | _ => e
  | .deliverProof request result =>
    match e.requests[request]? with
    | some (.proof ticket witness) => e.takeProof ticket witness result
    | _ => e
  | .deliverVerification request result =>
    match e.requests[request]? with
    | some (.verification ticket proof) => e.takeVerdict ticket proof result
    | _ => e

def run (e : Exchange) (events : List Event) : Exchange :=
  events.foldl step e

/-- The proof was made from the witness of the execution, the verdict is about the proof. -/
structure Chained (e : Exchange) : Prop where
  proof : ∀ proof, e.session.artifacts.proof = some proof →
    ∃ execution, e.session.artifacts.execution = some execution ∧
      e.provedWitness = some execution.witness
  verdict : ∀ verdict, e.session.artifacts.verdict = some verdict →
    ∃ proof, e.session.artifacts.proof = some proof ∧ e.verifiedProof = some proof

/-- A proof or verdict that comes with a current ticket answers a request for what is still stored. -/
def InTime (e : Exchange) : Event → Prop
  | .deliverProof request (.ok _) => ∀ ticket witness,
    e.requests[request]? = some (.proof ticket witness) → e.session.isCurrent ticket = true →
      e.session.artifacts.execution.map Execution.witness = some witness
  | .deliverVerification request (.ok _) => ∀ ticket proof,
    e.requests[request]? = some (.verification ticket proof) → e.session.isCurrent ticket = true →
      e.session.artifacts.proof = some proof
  | _ => True

theorem chained_of_none {e : Exchange} (hProof : e.session.artifacts.proof = none)
    (hVerdict : e.session.artifacts.verdict = none) : Chained e := by
  refine ⟨fun proof hStored => ?_, fun verdict hStored => ?_⟩
  · rw [hProof] at hStored
    cases hStored
  · rw [hVerdict] at hStored
    cases hStored

theorem chained_of_artifacts {e : Exchange} (h : Chained e) {s : Session}
    (hArtifacts : s.artifacts = e.session.artifacts ∨ s.artifacts = {}) :
    Chained { e with session := s } := by
  rcases hArtifacts with hSame | hEmpty
  · refine ⟨fun proof hProof => ?_, fun verdict hVerdict => ?_⟩
    · rw [hSame] at hProof ⊢
      exact h.proof proof hProof
    · rw [hSame] at hVerdict ⊢
      exact h.verdict verdict hVerdict
  · exact chained_of_none (congrArg Artifacts.proof hEmpty) (congrArg Artifacts.verdict hEmpty)

theorem chained_change {e : Exchange} (h : Chained e) {operation : Session.Operation}
    (hOperation : Transition.delivery? ⟨e.session, operation⟩ = none) :
    Chained { e with session := (e.session.step operation).2 } :=
  chained_of_artifacts h (Session.artifacts_of_not_delivery hOperation)

theorem chained_record {e : Exchange} (h : Chained e) (request : Except SessionError Request) :
    Chained (e.record request) := by
  cases request with
  | ok request => exact ⟨h.proof, h.verdict⟩
  | error _ => exact h

theorem chained_completeExecution {e : Exchange} (h : Chained e) (ticket : Ticket)
    (result : Except ExecutionError Execution) :
    Chained { e with session := (e.session.completeExecution ticket result).2 } := by
  rw [Session.completeExecution]
  by_cases hTicket : ticket = e.session.ticket
  · rw [Session.complete_of_current _ _ _ hTicket]
    cases result with
    | error _ => exact h
    | ok execution => exact chained_of_none rfl rfl
  · rw [Session.complete_of_stale _ _ _ hTicket]
    exact h

theorem takeProof_error (e : Exchange) (ticket : Ticket) (witness : List UInt8) (error : ProofError) :
    e.takeProof ticket witness (.error error) = e := by
  unfold takeProof Session.completeProof
  by_cases hTicket : ticket = e.session.ticket
  · rw [Session.complete_of_current _ _ _ hTicket]
  · rw [Session.complete_of_stale _ _ _ hTicket]

theorem takeVerdict_error (e : Exchange) (ticket : Ticket) (proof : Proof)
    (error : VerificationError) : e.takeVerdict ticket proof (.error error) = e := by
  unfold takeVerdict Session.completeVerification
  by_cases hTicket : ticket = e.session.ticket
  · rw [Session.complete_of_current _ _ _ hTicket]
  · rw [Session.complete_of_stale _ _ _ hTicket]

theorem chained_takeProof_iff {e : Exchange} (h : Chained e) (ticket : Ticket)
    (witness : List UInt8) (proof : Proof) :
    Chained (e.takeProof ticket witness (.ok proof)) ↔ (e.session.isCurrent ticket = true →
      e.session.artifacts.execution.map Execution.witness = some witness) := by
  rw [Session.isCurrent_iff]
  unfold takeProof Session.completeProof
  by_cases hTicket : ticket = e.session.ticket
  · rw [Session.complete_of_current _ _ _ hTicket]
    constructor
    · intro hAfter _
      obtain ⟨execution, hExecution, hWitness⟩ := hAfter.proof proof rfl
      have hStored : e.session.artifacts.execution = some execution := hExecution
      rw [hStored, Option.map_some, Option.some.inj hWitness]
    · intro hWitness
      obtain ⟨execution, hExecution, rfl⟩ := Option.map_eq_some_iff.mp (hWitness hTicket)
      refine ⟨fun _ _ => ⟨execution, hExecution, rfl⟩, fun _ hVerdict => ?_⟩
      cases hVerdict
  · rw [Session.complete_of_stale _ _ _ hTicket]
    exact ⟨fun _ hCurrent => absurd hCurrent hTicket, fun _ => h⟩

theorem chained_takeVerdict_iff {e : Exchange} (h : Chained e) (ticket : Ticket) (proof : Proof)
    (verdict : Bool) :
    Chained (e.takeVerdict ticket proof (.ok verdict)) ↔ (e.session.isCurrent ticket = true →
      e.session.artifacts.proof = some proof) := by
  rw [Session.isCurrent_iff]
  unfold takeVerdict Session.completeVerification
  by_cases hTicket : ticket = e.session.ticket
  · rw [Session.complete_of_current _ _ _ hTicket]
    constructor
    · intro hAfter _
      obtain ⟨stored, hStored, hVerified⟩ := hAfter.verdict verdict rfl
      exact Option.some.inj hVerified ▸ hStored
    · intro hProof
      exact ⟨h.proof, fun _ _ => ⟨proof, hProof hTicket, rfl⟩⟩
  · rw [Session.complete_of_stale _ _ _ hTicket]
    exact ⟨fun _ hCurrent => absurd hCurrent hTicket, fun _ => h⟩

theorem chained_step_iff {e : Exchange} (h : Chained e) (event : Event) :
    Chained (e.step event) ↔ InTime e event := by
  cases event with
  | select name =>
    exact iff_of_true (@chained_change e h (.select name) (by cases (e.session.select name).1 <;> rfl)) trivial
  | seed previous => exact iff_of_true (@chained_change e h (.seed previous) rfl) trivial
  | edit path raw => exact iff_of_true (@chained_change e h (.edit path raw) rfl) trivial
  | editValue path value => exact iff_of_true (@chained_change e h (.editValue path value) rfl) trivial
  | requestExecution | requestProof | requestVerification =>
    exact iff_of_true (chained_record h _) trivial
  | deliverExecution request result =>
    refine iff_of_true ?_ trivial
    rw [step]
    split
    · exact chained_completeExecution h _ result
    · exact h
  | deliverProof request result =>
    cases result with
    | error error =>
      refine iff_of_true ?_ trivial
      rw [step]
      split
      · exact (takeProof_error e _ _ error).symm ▸ h
      · exact h
    | ok proof =>
      rw [step, InTime]
      split
      · rename_i ticket witness hRequest
        rw [hRequest, chained_takeProof_iff h]
        simp
      · rename_i hRequest
        exact iff_of_true h fun ticket witness hFound => absurd hFound (hRequest ticket witness)
  | deliverVerification request result =>
    cases result with
    | error error =>
      refine iff_of_true ?_ trivial
      rw [step]
      split
      · exact (takeVerdict_error e _ _ error).symm ▸ h
      · exact h
    | ok verdict =>
      rw [step, InTime]
      split
      · rename_i ticket proof hRequest
        rw [hRequest, chained_takeVerdict_iff h]
        simp
      · rename_i hRequest
        exact iff_of_true h fun ticket proof hFound => absurd hFound (hRequest ticket proof)

theorem chained_begin {s : Session} (h : s.artifacts = {}) : Chained (begin s) :=
  chained_of_none (congrArg Artifacts.proof h) (congrArg Artifacts.verdict h)

theorem run_concat (e : Exchange) (events : List Event) (event : Event) :
    e.run (events ++ [event]) = (e.run events).step event := by
  rw [run, List.foldl_append]
  rfl

def ChainedThroughout (e : Exchange) (events : List Event) : Prop :=
  ∀ front, front <+: events → Chained (e.run front)

def AllInTime (e : Exchange) (events : List Event) : Prop :=
  ∀ front event, front ++ [event] <+: events → InTime (e.run front) event

theorem chainedThroughout_iff_allInTime {registry : Registry} {name : String} {first : Session}
    (hStart : Session.start registry name = .ok first) (events : List Event) :
    ChainedThroughout (begin first) events ↔ AllInTime (begin first) events := by
  constructor
  · intro hChained front event hFront
    have hBefore := hChained front ((List.prefix_append front [event]).trans hFront)
    have hAfter := hChained _ hFront
    rw [run_concat] at hAfter
    exact (chained_step_iff hBefore event).mp hAfter
  · intro hInTime front
    induction front using List.reverseRecOn with
    | nil => exact fun _ => chained_begin (Session.artifacts_start hStart)
    | append_singleton front event ih =>
      intro hFront
      have hBefore := ih ((List.prefix_append front [event]).trans hFront)
      rw [run_concat]
      exact (chained_step_iff hBefore event).mpr (hInTime front event hFront)

/-- While a proof is verified the program is run again on the same inputs. -/
def overtaken : List Event :=
  [.requestExecution, .deliverExecution 0 (.ok ⟨[1, 2], none⟩), .requestProof,
    .deliverProof 1 (.ok ⟨[9], ["3"]⟩), .requestVerification, .requestExecution,
    .deliverExecution 3 (.ok ⟨[1, 2], none⟩), .deliverVerification 2 (.ok true)]

theorem chainedThroughout_iff_overtaken :
    ChainedThroughout (begin Session.sample) overtaken ↔ AllInTime (begin Session.sample) overtaken :=
  chainedThroughout_iff_allInTime Session.start_sample overtaken

/-- The verdict comes last and is stored, but the proof that it is about has been dropped. -/
theorem not_chainedThroughout_overtaken :
    Session.start Session.sampleRegistry "vote" = .ok Session.sample ∧
      ¬ ChainedThroughout (begin Session.sample) overtaken := by
  refine ⟨rfl, fun hChained => ?_⟩
  obtain ⟨proof, hProof, -⟩ := (hChained overtaken List.prefix_rfl).verdict true rfl
  cases hProof

end Exchange

end CircuitForm
