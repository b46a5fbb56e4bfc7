import CircuitForm.Descriptor.Basic
import CircuitForm.Input.Error
import CircuitForm.Input.Tree
import CircuitForm.Json.Reader
import CircuitForm.Text.Blank

/-!
# Literals

What a user typed, before it is known whether it fits the type it was typed for. A string is
taken as it is, a boolean has four spellings, and all else is JSON without `null`.
-/

namespace CircuitForm

inductive Literal where
  | number (n : Numeral)
  | boolean (b : Bool)
  | string (s : String)
  | array (items : List Literal)
  | object (entries : List (String × Literal))
deriving Inhabited, Repr

namespace Literal

def kindName : Literal → String
  | .number _ => "number"
  | .boolean _ => "boolean"
  | .string _ => "string"
  | .array _ => "array"
  | .object _ => "object"

def nullError (path : Path) : InputError :=
  ⟨path, .mismatch "a value" "null"⟩

mutual

/-- The literal of the JSON value at a path. The first `null` in it is the error. -/
def ofJsonAt (path : Path) : Json → Except InputError Literal
  | .null => .error (nullError path)
  | .bool b => .ok (.boolean b)
  | .number n => .ok (.number n)
  | .string s => .ok (.string s)
  | .array items => (itemsOfJson path 0 items).map .array
  | .object members => (entriesOfJson path members).map .object

def itemsOfJson (path : Path) (index : Nat) : List Json → Except InputError (List Literal)
  | [] => .ok []
  | item :: rest => do
    let literal ← ofJsonAt (path.child (.index index)) item
    let literals ← itemsOfJson path (index + 1) rest
    .ok (literal :: literals)

def entriesOfJson (path : Path) :
    List (String × Json) → Except InputError (List (String × Literal))
  | [] => .ok []
  | (name, item) :: rest => do
    let literal ← ofJsonAt (path.child (.key name)) item
    let literals ← entriesOfJson path rest
    .ok ((name, literal) :: literals)

end

def ofJson (json : Json) : Except InputError Literal :=
  ofJsonAt [] json

mutual

def ofTree : InputTree → Literal
  | .number n => .number n
  | .boolean b => .boolean b
  | .string s => .string s
  | .list items => .array (ofTrees items)
  | .struct fields => .object (ofFields fields)

def ofTrees : List InputTree → List Literal
  | [] => []
  | item :: rest => ofTree item :: ofTrees rest

def ofFields : List (String × InputTree) → List (String × Literal)
  | [] => []
  | (name, item) :: rest => (name, ofTree item) :: ofFields rest

end

/-- A truth value as typed: blanks around it and the case of ASCII letters do not matter. -/
def booleanOfText? (text : String) : Option Bool :=
  let word := (Text.trimList text.toList).map Char.toLower
  if word = "true".toList ∨ word = ['1'] then some true
  else if word = "false".toList ∨ word = ['0'] then some false
  else none

def decode (type : Descriptor) (raw : String) : Except InputError Literal :=
  match type with
  | .string _ => .ok (.string raw)
  | .boolean =>
    match booleanOfText? raw with
    | some b => .ok (.boolean b)
    | none => .error ⟨[], .mismatch type.title (Text.quoted (Text.trim raw))⟩
  | _ =>
    let document := Bytes.ofString (Text.trim raw)
    match Json.ofText document with
    | .ok json => ofJson json
    | .error fault =>
      .error ⟨[], .mismatch type.title ("malformed input (" ++ fault.message document ++ ")")⟩

end Literal

end CircuitForm
