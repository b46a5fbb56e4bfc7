import CircuitForm.Descriptor.Basic
import CircuitForm.Json.Printer

/-!
# Descriptors as JSON

Every descriptor is an object whose `kind` says which one it is.
-/

namespace CircuitForm

def Sign.name : Sign → String
  | .signed => "signed"
  | .unsigned => "unsigned"

namespace Descriptor

def tagged (kind : String) (members : List (String × Json)) : Json :=
  .object (("kind", .string kind) :: members)

mutual

def toJson : Descriptor → Json
  | .field => tagged "field" []
  | .boolean => tagged "boolean" []
  | .string length => tagged "string" [("length", .number (.ofNat length))]
  | .integer sign width =>
    tagged "integer" [("sign", .string sign.name), ("width", .number (.ofNat width))]
  | .array length element =>
    tagged "array" [("length", .number (.ofNat length)), ("type", toJson element)]
  | .tuple elements => tagged "tuple" [("fields", .array (elementsToJson elements))]
  | .struct path fields =>
    tagged "struct" [("path", .string path), ("fields", .array (fieldsToJson fields))]

def elementsToJson : List Descriptor → List Json
  | [] => []
  | element :: rest => toJson element :: elementsToJson rest

def fieldsToJson : List (String × Descriptor) → List Json
  | [] => []
  | (name, type) :: rest =>
    .object [("name", .string name), ("type", toJson type)] :: fieldsToJson rest

end

end Descriptor

def Parameter.toJson (p : Parameter) : Json :=
  .object [("name", .string p.name), ("type", p.type.toJson),
    ("visibility", match p.visibility with
      | none => .null
      | some v => .string v.name)]

end CircuitForm
