import CircuitForm.Session.Basic

/-!
# Runs of a session

A run takes a session through operations of every kind, in any order and with any data. Its
history has each operation together with the session that it met, which determines the answer
and the session after it.
-/

namespace CircuitForm

namespace Session

inductive Operation where
  | select (name : String)
  | seed (previous : Inputs)
  | edit (path : Path) (raw : String)
  | editValue (path : Path) (value : InputTree)
  | ticket
  | requestExecution
  | completeExecution (ticket : Ticket) (result : Except ExecutionError Execution)
  | execute (executor : Executor)
  | requestProof
  | completeProof (ticket : Ticket) (result : Except ProofError Proof)
  | prove (prover : Prover)
  | requestVerification
  | completeVerification (ticket : Ticket) (result : Except VerificationError Bool)
  | verify (verifier : Verifier)

inductive Answer where
  | selected (result : Except SessionError String)
  | seeded
  | edited (result : Except SessionError EditOutcome)
  | ticket (ticket : Ticket)
  | executionRequested (result : Except SessionError (Ticket × Inputs))
  | proofRequested (result : Except SessionError (Ticket × List UInt8))
  | verificationRequested (result : Except SessionError (Ticket × Proof))
  | completed (result : Except SessionError Bool)
  | executed (result : Except SessionError Execution)
  | proved (result : Except SessionError Proof)
  | verified (result : Except SessionError Bool)

def step (s : Session) : Operation → Answer × Session
  | .select name => (s.select name).map .selected id
  | .seed previous => (.seeded, s.seed previous)
  | .edit path raw => (s.edit path raw).map .edited id
  | .editValue path value => (s.editValue path value).map .edited id
  | .ticket => (.ticket s.ticket, s)
  | .requestExecution => (.executionRequested s.executionRequest, s)
  | .completeExecution ticket result => (s.completeExecution ticket result).map .completed id
  | .execute executor => (s.execute executor).map .executed id
  | .requestProof => (.proofRequested s.proofRequest, s)
  | .completeProof ticket result => (s.completeProof ticket result).map .completed id
  | .prove prover => (s.prove prover).map .proved id
  | .requestVerification => (.verificationRequested s.verificationRequest, s)
  | .completeVerification ticket result => (s.completeVerification ticket result).map .completed id
  | .verify verifier => (s.verify verifier).map .verified id

structure Transition where
  source : Session
  operation : Operation

def Transition.answer (t : Transition) : Answer :=
  (t.source.step t.operation).1

def Transition.target (t : Transition) : Session :=
  (t.source.step t.operation).2

def run (s : Session) : List Operation → Session
  | [] => s
  | operation :: rest => run (s.step operation).2 rest

def history (s : Session) : List Operation → List Transition
  | [] => []
  | operation :: rest => ⟨s, operation⟩ :: history (s.step operation).2 rest

theorem run_append (s : Session) (front back : List Operation) :
    s.run (front ++ back) = (s.run front).run back := by
  induction front generalizing s with
  | nil => rfl
  | cons operation rest ih => exact ih _

theorem history_append (s : Session) (front back : List Operation) :
    s.history (front ++ back) = s.history front ++ (s.run front).history back := by
  induction front generalizing s with
  | nil => rfl
  | cons operation rest ih => rw [List.cons_append, history, ih, history, run, List.cons_append]

theorem run_concat (s : Session) (operations : List Operation) (operation : Operation) :
    s.run (operations ++ [operation]) = ((s.run operations).step operation).2 :=
  run_append s operations [operation]

theorem history_concat (s : Session) (operations : List Operation) (operation : Operation) :
    s.history (operations ++ [operation]) = s.history operations ++ [⟨s.run operations, operation⟩] :=
  history_append s operations [operation]

def Reachable (registry : Registry) (s : Session) : Prop :=
  ∃ name first operations, start registry name = .ok first ∧ s = first.run operations

theorem run_induction {motive : Session → Prop} {first : Session} (hFirst : motive first)
    (hStep : ∀ s operation, motive s → motive (s.step operation).2) (operations : List Operation) :
    motive (first.run operations) := by
  induction operations generalizing first with
  | nil => exact hFirst
  | cons operation rest ih => exact ih (hStep first operation hFirst)

theorem exists_rest_of_history {first : Session} {operations : List Operation}
    {earlier later : List Transition} {t : Transition}
    (h : first.history operations = earlier ++ t :: later) :
    ∃ back, later = t.target.history back ∧ first.run operations = t.target.run back := by
  induction earlier generalizing first operations with
  | nil =>
    cases operations with
    | nil => cases h
    | cons operation rest =>
      obtain ⟨rfl, rfl⟩ := List.cons.inj h
      exact ⟨rest, rfl, rfl⟩
  | cons u earlier ih =>
    cases operations with
    | nil => cases h
    | cons operation rest =>
      obtain ⟨back, hLater, hRun⟩ := ih (List.cons.inj h).2
      exact ⟨back, hLater, hRun⟩

end Session

end CircuitForm
