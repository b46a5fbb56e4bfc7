import CircuitForm.Input.Tree
import CircuitForm.Program.Basic

/-!
# Stages after the inputs

A program is run on its inputs, the run's witness is proved, and the proof is verified. The
backends that do this are given as functions; what they answer is kept until the inputs
change. A ticket says which inputs a request was made for.
-/

namespace CircuitForm

inductive ExecutionError where
  | unsatisfied (text : String)
  | backend (text : String)
deriving DecidableEq, Repr

inductive ProofError where
  | witness (text : String)
  | prover (text : String)
deriving DecidableEq, Repr

inductive VerificationError where
  | malformed (text : String)
  | backend (text : String)
deriving DecidableEq, Repr

def ExecutionError.message : ExecutionError → String
  | .unsatisfied text => "unsatisfied constraint: " ++ text
  | .backend text => "execution failed: " ++ text

def ProofError.message : ProofError → String
  | .witness text => "witness error: " ++ text
  | .prover text => "prover error: " ++ text

def VerificationError.message : VerificationError → String
  | .malformed text => "malformed proof: " ++ text
  | .backend text => "verifier error: " ++ text

structure Execution where
  witness : List UInt8
  returnValue : Option Json
deriving Repr

structure Proof where
  bytes : List UInt8
  publicInputs : List String
deriving DecidableEq, Repr

abbrev Executor := Program → Inputs → Except ExecutionError Execution
abbrev Prover := Program → List UInt8 → Except ProofError Proof

/-- A verifier's `false` is a verdict: the proof was looked at and refused. -/
abbrev Verifier := Program → Proof → Except VerificationError Bool

structure Ticket where
  revision : UInt64
deriving DecidableEq, Repr

structure Artifacts where
  execution : Option Execution := none
  proof : Option Proof := none
  verdict : Option Bool := none
deriving Repr

def bytesToJson (bytes : List UInt8) : Json :=
  .array (bytes.map fun b => .number (.ofNat b.toNat))

def Execution.toJson (e : Execution) : Json :=
  .object [("witness", bytesToJson e.witness), ("return_value", e.returnValue.getD .null)]

def Proof.toJson (p : Proof) : Json :=
  .object [("proof", bytesToJson p.bytes), ("public_inputs", .array (p.publicInputs.map .string))]

end CircuitForm
