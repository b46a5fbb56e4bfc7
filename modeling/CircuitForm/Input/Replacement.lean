import CircuitForm.Input.Tree
import CircuitForm.Text.Quoted

/-!
# Replacing a node

One node of a tree is replaced, and only the nodes above it are rebuilt. A path that does not
lead to a node is refused with the step at which it fails.
-/

namespace CircuitForm

inductive ShapeFault where
  | emptyPath
  | noParameterName
  | noParameter (name : String)
  | outOfBounds (index length : Nat)
  | noField (name : String)
  | noDescent (kind : String) (segment : Segment)
  | undeclared
  | missingNode
deriving DecidableEq, Repr

def Segment.debugText : Segment → String
  | .index i => "Index(" ++ toString i ++ ")"
  | .key name => "Key(" ++ Text.quoted name ++ ")"

def ShapeFault.reason : ShapeFault → String
  | .emptyPath => "empty path does not name a parameter"
  | .noParameterName => "first segment must be a parameter name"
  | .noParameter name => "no parameter named `" ++ name ++ "`"
  | .outOfBounds index length =>
    "index " ++ toString index ++ " out of bounds for length " ++ toString length
  | .noField name => "no field named `" ++ name ++ "`"
  | .noDescent kind segment =>
    "cannot descend into " ++ kind ++ " with segment " ++ segment.debugText
  | .undeclared => "path does not address a declared input"
  | .missingNode => "input tree has no node here"

structure ShapeError where
  path : Path
  fault : ShapeFault
deriving DecidableEq, Repr

def ShapeError.message (e : ShapeError) : String :=
  "shape mismatch at " ++ e.path.describe ++ ": " ++ e.fault.reason

namespace InputTree

def replaceAt (value : InputTree) : Path → InputTree → Except ShapeFault InputTree
  | [], _ => .ok value
  | .index i :: rest, .list items =>
    match items[i]? with
    | none => .error (.outOfBounds i items.length)
    | some item => (replaceAt value rest item).map fun new => .list (items.set i new)
  | .key name :: rest, .struct fields =>
    match fields.lookup name with
    | none => .error (.noField name)
    | some item =>
      (replaceAt value rest item).map fun new => .struct (Entries.insert name new fields)
  | segment :: _, tree => .error (.noDescent tree.kindName segment)

def replace (tree : InputTree) (path : Path) (value : InputTree) : Except ShapeError InputTree :=
  (replaceAt value path tree).mapError fun fault => ⟨path, fault⟩

end InputTree

namespace Inputs

def replaceAt (value : InputTree) : Path → Inputs → Except ShapeFault Inputs
  | [], _ => .error .emptyPath
  | .index _ :: _, _ => .error .noParameterName
  | .key name :: rest, inputs =>
    match inputs.lookup name with
    | none => .error (.noParameter name)
    | some tree =>
      (InputTree.replaceAt value rest tree).map fun new => Entries.insert name new inputs

/-- The inputs with another value at a path, whose first segment names the parameter. -/
def replace (inputs : Inputs) (path : Path) (value : InputTree) : Except ShapeError Inputs :=
  (replaceAt value path inputs).mapError fun fault => ⟨path, fault⟩

end Inputs

end CircuitForm
