import CircuitForm.Descriptor.Basic

/-!
# Nodes below a node

Every path below a node with the descriptor of what stands there, a node before the ones in it.
-/

namespace CircuitForm.Descriptor

mutual

def nested : Descriptor → Path → List (Path × Descriptor)
  | .array length element, path =>
    (List.range length).flatMap fun i =>
      (path.child (.index i), element) :: nested element (path.child (.index i))
  | .tuple elements, path => nestedElements elements path 0
  | .struct _ fields, path => nestedFields fields path
  | .field, _ | .boolean, _ | .string _, _ | .integer _ _, _ => []

def nestedElements : List Descriptor → Path → (index : Nat) → List (Path × Descriptor)
  | [], _, _ => []
  | element :: rest, path, index =>
    (path.child (.index index), element) :: nested element (path.child (.index index)) ++
      nestedElements rest path (index + 1)

def nestedFields : List (String × Descriptor) → Path → List (Path × Descriptor)
  | [], _ => []
  | (name, type) :: rest, path =>
    (path.child (.key name), type) :: nested type (path.child (.key name)) ++
      nestedFields rest path

end

end CircuitForm.Descriptor
