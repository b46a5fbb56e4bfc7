import CircuitForm.Descriptor.Basic
import CircuitForm.Input.Tree

/-!
# Default trees

The tree of a descriptor is built leaf by leaf. Where an earlier tree has a scalar at the same
place that is already valid there, it is kept; every other leaf gets the default of its type.
-/

namespace CircuitForm

/-- A default string is its declared length of these. -/
def placeholder : Char := '*'

def scalarDefault : Descriptor → InputTree
  | .boolean => .boolean false
  | .string length => .string (String.ofList (List.replicate length placeholder))
  | _ => .zero

def carries : Descriptor → InputTree → Bool
  | .field, .number _ => true
  | .integer .signed _, .number _ => true
  | .integer .unsigned _, .number n => !n.isNegative
  | .boolean, .boolean _ => true
  | .string length, .string s => s.length = length
  | _, _ => false

def carriedOrDefault (type : Descriptor) (previous : Option InputTree) : InputTree :=
  match previous with
  | some tree => if carries type tree then tree else scalarDefault type
  | none => scalarDefault type

def previousChild (previous : Option InputTree) (segment : Segment) : Option InputTree :=
  previous.bind (·.child segment)

mutual

def synthesize : Descriptor → Option InputTree → InputTree
  | .array length element, previous =>
    .list ((List.range length).map fun i =>
      synthesize element (previousChild previous (.index i)))
  | .tuple elements, previous => .list (synthesizeElements elements 0 previous)
  | .struct _ fields, previous => .struct (synthesizeFields fields previous [])
  | type, previous => carriedOrDefault type previous

def synthesizeElements : List Descriptor → (index : Nat) → Option InputTree → List InputTree
  | [], _, _ => []
  | type :: rest, index, previous =>
    synthesize type (previousChild previous (.index index)) ::
      synthesizeElements rest (index + 1) previous

def synthesizeFields : List (String × Descriptor) → Option InputTree → Entries InputTree →
    Entries InputTree
  | [], _, built => built
  | (name, type) :: rest, previous, built =>
    synthesizeFields rest previous
      (built.insert name (synthesize type (previousChild previous (.key name))))

end

/-- The inputs for parameters, each built from the earlier entry of its name. -/
def synthesizeInputs (parameters : List Parameter) (previous : Inputs) : Inputs :=
  parameters.foldl (fun inputs parameter =>
    inputs.insert parameter.name
      (synthesize parameter.type (previous.lookup parameter.name))) []

end CircuitForm
