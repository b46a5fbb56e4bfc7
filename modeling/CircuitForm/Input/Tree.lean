import CircuitForm.Path.Basic
import CircuitForm.Json.Printer
import CircuitForm.Json.Decoder

/-!
# Input trees

The value of an input, in the shape of its descriptor: scalars are leaves, arrays and tuples are
lists, structs are named entries in order. The inputs of a program are a tree for each
parameter, so the first segment of a path into them is the name of a parameter. As JSON a
tree is written as it stands; `null` is no tree.
-/

namespace CircuitForm

inductive InputTree where
  | number (n : Numeral)
  | boolean (b : Bool)
  | string (s : String)
  | list (items : List InputTree)
  | struct (fields : List (String × InputTree))
deriving Inhabited, Repr

abbrev Inputs := Entries InputTree

namespace InputTree

def zero : InputTree :=
  .number .zero

def kindName : InputTree → String
  | .number _ => "number"
  | .boolean _ => "boolean"
  | .string _ => "string"
  | .list _ => "array"
  | .struct _ => "object"

def child : InputTree → Segment → Option InputTree
  | .list items, .index i => items[i]?
  | .struct fields, .key name => fields.lookup name
  | _, _ => none

def at? (tree : InputTree) (path : Path) : Option InputTree :=
  path.foldlM child tree

mutual

def toJson : InputTree → Json
  | .number n => .number n
  | .boolean b => .bool b
  | .string s => .string s
  | .list items => .array (itemsToJson items)
  | .struct fields => .object (fieldsToJson fields)

def itemsToJson : List InputTree → List Json
  | [] => []
  | item :: rest => toJson item :: itemsToJson rest

def fieldsToJson : List (String × InputTree) → List (String × Json)
  | [] => []
  | (name, item) :: rest => (name, toJson item) :: fieldsToJson rest

end

mutual

/-- The tree that a JSON value stands for, unless there is a `null` in it. -/
def ofJson? : Json → Option InputTree
  | .null => none
  | .bool b => some (.boolean b)
  | .number n => some (.number n)
  | .string s => some (.string s)
  | .array items => (itemsOfJson? items).map .list
  | .object members => (fieldsOfJson? members).map .struct

def itemsOfJson? : List Json → Option (List InputTree)
  | [] => some []
  | item :: rest => do
    let tree ← ofJson? item
    let trees ← itemsOfJson? rest
    some (tree :: trees)

def fieldsOfJson? : List (String × Json) → Option (List (String × InputTree))
  | [] => some []
  | (name, item) :: rest => do
    let tree ← ofJson? item
    let trees ← fieldsOfJson? rest
    some ((name, tree) :: trees)

end

/-- The text a user would type for the tree. Strings are typed as they are. -/
def rawText : InputTree → String
  | .string s => s
  | tree => tree.toJson.compact

open Json (Fault Decoder)

def decoder : Decoder InputTree :=
  fun depth text => do
    let (json, rest) ← Json.value .data depth text
    match ofJson? json with
    | some tree => .ok (tree, rest)
    | none => .error (.unsettled .nullInput rest)

def ofText (text : Bytes) : Except Fault InputTree := do
  let (tree, rest) ← decoder Json.depthLimit text
  Json.atEnd rest
  .ok tree

end InputTree

namespace Inputs

def at? (inputs : Inputs) : Path → Option InputTree
  | .key name :: rest =>
    match inputs.lookup name with
    | some tree => tree.at? rest
    | none => none
  | _ => none

def toJson (inputs : Inputs) : Json :=
  .object (InputTree.fieldsToJson inputs)

def decoder : Json.Decoder Inputs :=
  Json.Decoder.map InputTree.decoder

end Inputs

end CircuitForm
