import CircuitForm.Json.Basic
import CircuitForm.Text.Digit
import CircuitForm.Word

/-!
# Pointers into JSON values

A pointer is a row of tokens, each after a slash; `~1` stands for a slash in a token and `~0` for
a tilde. A token names a member of an object or, as a plain decimal number, an element of an
array.
-/

namespace CircuitForm.Json.Pointer

def unescape : List Char → List Char
  | '~' :: '1' :: rest => '/' :: unescape rest
  | '~' :: '0' :: rest => '~' :: unescape rest
  | c :: rest => c :: unescape rest
  | [] => []

/-- The index that a token spells: no sign, no leading zero, below `2 ^ 64`. -/
def index? (token : List Char) : Option Nat :=
  match token with
  | [] => none
  | '0' :: _ :: _ => none
  | digits =>
    match Text.naturalOfDigits? digits with
    | some i => if i < Word.bound64 then some i else none
    | none => none

def child? (token : List Char) : Json → Option Json
  | .object members => members.lookup (String.ofList (unescape token))
  | .array items =>
    match index? (unescape token) with
    | some i => items[i]?
    | none => none
  | _ => none

/-- The tokens of a pointer, the text before its first slash dropped. -/
def tokens (pointer : List Char) : List (List Char) :=
  (pointer.splitOn '/').drop 1

end Pointer

/-- The value at a pointer. The empty pointer is the value itself; any other starts with a
slash. -/
def atPointer? (pointer : String) (json : Json) : Option Json :=
  match pointer.toList with
  | [] => some json
  | '/' :: rest =>
    (Pointer.tokens ('/' :: rest)).foldlM (fun target token => Pointer.child? token target) json
  | _ => none

end CircuitForm.Json
