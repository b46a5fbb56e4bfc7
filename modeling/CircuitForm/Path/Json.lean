import CircuitForm.Path.Basic
import CircuitForm.Json.Printer
import CircuitForm.Json.Fault

/-!
# Paths as JSON

A path is written as an array of its segments, indexes as numbers and keys as strings, so that
an index and a key of the same spelling stay apart.
-/

namespace CircuitForm

inductive PathShapeFault where
  | notSegment
  | notSequence (found : Json.Found)
deriving DecidableEq, Repr

def PathShapeFault.message : PathShapeFault → String
  | .notSegment => "data did not match any variant of untagged enum PathSegment"
  | .notSequence found => "invalid type: " ++ found.phrase ++ ", expected a sequence"

namespace Segment

def toJson : Segment → Json
  | .index i => .number (.ofNat i)
  | .key name => .string name

def ofJson : Json → Except PathShapeFault Segment
  | .string name => .ok (.key name)
  | .number n =>
    match n.int? with
    | some i => if 0 ≤ i ∧ i < Word.bound64 then .ok (.index i.toNat) else .error .notSegment
    | none => .error .notSegment
  | _ => .error .notSegment

end Segment

namespace Path

def toJson (path : Path) : Json :=
  .array (path.map Segment.toJson)

def serialized (path : Path) : String :=
  path.toJson.compact

/-- What stands where a path should be; a number of any size is just a number. -/
def found : Json → Json.Found
  | .null => .null
  | .bool b => .boolean b
  | .number _ => .number
  | .string s => .string s
  | .array _ => .sequence
  | .object _ => .map

def ofJson : Json → Except PathShapeFault Path
  | .array items => items.mapM Segment.ofJson
  | other => .error (.notSequence (found other))

end Path

end CircuitForm
