import CircuitForm.Input.Check
import CircuitForm.Input.InvalidPaths
import CircuitForm.Input.Replacement
import CircuitForm.Input.Synthesis
import CircuitForm.Session.Stage

/-!
# Editing sessions

A session has a program selected from a registry and a tree of inputs for it. Edits are checked
before they change the tree; a refused edit only marks its path. Any change of the tree starts
a new revision and drops what was derived from the old one. Every operation gives its
answer together with the session after it, also when the answer is an error.
-/

namespace CircuitForm

inductive SessionError where
  | shape (error : ShapeError)
  | emptyRegistry
  | executionGated (invalid : Nat)
  | missingWitness
  | missingProof
  | execution (error : ExecutionError)
  | proof (error : ProofError)
  | verification (error : VerificationError)
deriving DecidableEq, Repr

def SessionError.message : SessionError → String
  | .shape error => error.message
  | .emptyRegistry => "registry contains no programs"
  | .executionGated invalid =>
    "execution is disabled while " ++ toString invalid ++ " input(s) are invalid"
  | .missingWitness => "no witness available; execute the program first"
  | .missingProof => "no proof available; prove the witness first"
  | .execution error => error.message
  | .proof error => error.message
  | .verification error => error.message

inductive EditOutcome where
  | committed
  | rejected (error : InputError)
deriving DecidableEq, Repr

structure Session where
  registry : Registry
  name : String
  program : Program
  inputs : Inputs
  invalid : InvalidPaths
  artifacts : Artifacts
  revision : UInt64

namespace Session

/-- Starts with the program of a name, or with the first one if the name is unknown. -/
def start (registry : Registry) (name : String) : Except SessionError Session :=
  match registry.resolve name with
  | none => .error .emptyRegistry
  | some (name, program) =>
    .ok {
      registry := registry
      name := name
      program := program
      inputs := synthesizeInputs program.parameters []
      invalid := .empty
      artifacts := {}
      revision := 0 }

/-- New inputs start a new revision, for which nothing has been derived yet. -/
def withInputs (s : Session) (inputs : Inputs) : Session :=
  { s with inputs := inputs, artifacts := {}, revision := s.revision + 1 }

def select (s : Session) (name : String) : Except SessionError String × Session :=
  match s.registry.resolve name with
  | none => (.error .emptyRegistry, s)
  | some (name, program) =>
    (.ok name,
      { s.withInputs (synthesizeInputs program.parameters s.inputs) with
        name := name
        program := program
        invalid := .empty })

def seed (s : Session) (previous : Inputs) : Session :=
  { s.withInputs (synthesizeInputs s.program.parameters previous) with invalid := .empty }

def canExecute (s : Session) : Bool :=
  !s.invalid.anyInvalid

/-- The type that is declared at a path, where the inputs must have a node too. -/
def typeFor (s : Session) (path : Path) : Except SessionError Descriptor :=
  match typeAt s.program.parameters path with
  | none => .error (.shape ⟨path, .undeclared⟩)
  | some type =>
    match s.inputs.at? path with
    | none => .error (.shape ⟨path, .missingNode⟩)
    | some _ => .ok type

/-- Puts a checked value at a path, or marks the path if the check refused it. -/
def settle (s : Session) (path : Path) (checked : Except InputError InputTree) :
    Except SessionError EditOutcome × Session :=
  match checked with
  | .ok value =>
    match s.inputs.replace path value with
    | .error error => (.error (.shape error), s)
    | .ok inputs =>
      (.ok .committed, { s.withInputs inputs with invalid := s.invalid.clearSubtree path })
  | .error error =>
    (.ok (.rejected (error.rebase path)), { s with invalid := s.invalid.register path true })

def edit (s : Session) (path : Path) (raw : String) : Except SessionError EditOutcome × Session :=
  match s.typeFor path with
  | .error error => (.error error, s)
  | .ok type => s.settle path (check type raw)

def editValue (s : Session) (path : Path) (value : InputTree) :
    Except SessionError EditOutcome × Session :=
  match s.typeFor path with
  | .error error => (.error error, s)
  | .ok type => s.settle path (firstError (typecheck type (.ofTree value)))

def ticket (s : Session) : Ticket :=
  ⟨s.revision⟩

def isCurrent (s : Session) (ticket : Ticket) : Bool :=
  ticket.revision == s.revision

def executionRequest (s : Session) : Except SessionError (Ticket × Inputs) :=
  if s.canExecute then .ok (s.ticket, s.inputs) else .error (.executionGated s.invalid.count)

/-- Takes a result if its ticket is still current; `false` means that it was too late. -/
def complete {ε α : Type} (s : Session) (ticket : Ticket) (result : Except ε α)
    (failure : ε → SessionError) (store : α → Artifacts) : Except SessionError Bool × Session :=
  if s.isCurrent ticket then
    match result with
    | .ok answer => (.ok true, { s with artifacts := store answer })
    | .error error => (.error (failure error), s)
  else
    (.ok false, s)

def completeExecution (s : Session) (ticket : Ticket) (result : Except ExecutionError Execution) :
    Except SessionError Bool × Session :=
  s.complete ticket result .execution fun execution => { execution := some execution }

def execute (s : Session) (executor : Executor) : Except SessionError Execution × Session :=
  match s.executionRequest with
  | .error error => (.error error, s)
  | .ok (ticket, inputs) =>
    match s.completeExecution ticket (executor s.program inputs) with
    | (.error error, s) => (.error error, s)
    | (.ok _, s) =>
      match s.artifacts.execution with
      | some execution => (.ok execution, s)
      | none => (.error .missingWitness, s)

def proofRequest (s : Session) : Except SessionError (Ticket × List UInt8) :=
  match s.artifacts.execution with
  | some execution => .ok (s.ticket, execution.witness)
  | none => .error .missingWitness

def completeProof (s : Session) (ticket : Ticket) (result : Except ProofError Proof) :
    Except SessionError Bool × Session :=
  s.complete ticket result .proof fun proof =>
    { s.artifacts with proof := some proof, verdict := none }

def prove (s : Session) (prover : Prover) : Except SessionError Proof × Session :=
  match s.proofRequest with
  | .error error => (.error error, s)
  | .ok (ticket, witness) =>
    match s.completeProof ticket (prover s.program witness) with
    | (.error error, s) => (.error error, s)
    | (.ok _, s) =>
      match s.artifacts.proof with
      | some proof => (.ok proof, s)
      | none => (.error .missingProof, s)

def verificationRequest (s : Session) : Except SessionError (Ticket × Proof) :=
  match s.artifacts.proof with
  | some proof => .ok (s.ticket, proof)
  | none => .error .missingProof

def completeVerification (s : Session) (ticket : Ticket) (result : Except VerificationError Bool) :
    Except SessionError Bool × Session :=
  s.complete ticket result .verification fun verdict =>
    { s.artifacts with verdict := some verdict }

def verify (s : Session) (verifier : Verifier) : Except SessionError Bool × Session :=
  match s.verificationRequest with
  | .error error => (.error error, s)
  | .ok (ticket, proof) =>
    match s.completeVerification ticket (verifier s.program proof) with
    | (.error error, s) => (.error error, s)
    | (.ok _, s) =>
      match s.artifacts.verdict with
      | some verdict => (.ok verdict, s)
      | none => (.error .missingProof, s)

end Session

end CircuitForm
