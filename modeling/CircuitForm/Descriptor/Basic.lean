import CircuitForm.Path.Basic
import CircuitForm.Json.Basic

/-!
# Descriptors

The types of the inputs that a compiled program declares, and the parameters that have them.
Scalars are leaves; arrays and tuples have their elements under indexes, structs their fields
under keys. `at?` says which paths a descriptor declares.
-/

namespace CircuitForm

inductive Sign where
  | signed
  | unsigned
deriving DecidableEq, Repr

inductive Visibility where
  | pub
  | priv
  | databus
deriving DecidableEq, Repr

inductive Descriptor where
  | field
  | boolean
  | string (length : Nat)
  | integer (sign : Sign) (width : Nat)
  | array (length : Nat) (element : Descriptor)
  | tuple (elements : List Descriptor)
  | struct (path : String) (fields : List (String × Descriptor))
deriving Inhabited, Repr

structure Parameter where
  name : String
  type : Descriptor
  visibility : Option Visibility
deriving Inhabited, Repr

def Visibility.name : Visibility → String
  | .pub => "public"
  | .priv => "private"
  | .databus => "databus"

namespace Descriptor

def isScalar : Descriptor → Bool
  | .field | .boolean | .string _ | .integer _ _ => true
  | .array _ _ | .tuple _ | .struct _ _ => false

mutual

/-- The descriptor as a message shows it; a struct goes by the path it was declared under. -/
def title : Descriptor → String
  | .field => "Field"
  | .boolean => "bool"
  | .string length => "str<" ++ toString length ++ ">"
  | .integer .signed width => "i" ++ toString width
  | .integer .unsigned width => "u" ++ toString width
  | .array length element => "[" ++ title element ++ "; " ++ toString length ++ "]"
  | .tuple elements => "(" ++ ", ".intercalate (titles elements) ++ ")"
  | .struct path _ => if path.isEmpty then "struct" else path

def titles : List Descriptor → List String
  | [] => []
  | element :: rest => title element :: titles rest

end

def child : Descriptor → Segment → Option Descriptor
  | .array length element, .index i => if i < length then some element else none
  | .tuple elements, .index i => elements[i]?
  | .struct _ fields, .key name => fields.lookup name
  | _, _ => none

def at? (type : Descriptor) (path : Path) : Option Descriptor :=
  path.foldlM child type

end Descriptor

def typeAt (parameters : List Parameter) : Path → Option Descriptor
  | .key name :: rest =>
    match parameters.find? (·.name == name) with
    | some parameter => parameter.type.at? rest
    | none => none
  | _ => none

end CircuitForm
