import CircuitForm.Path.Basic
import CircuitForm.Json.Numeral

/-!
# Rejected inputs

Why a typed value is refused, and at which node. The path is relative to the node that was
checked; `rebase` anchors it where that node stands.
-/

namespace CircuitForm

inductive InputFault where
  | mismatch (expected found : String)
  | wrongLength (expected found : Nat)
  | wrongFields (missing unexpected : List String)
  | negative (value : Numeral)
deriving DecidableEq, Repr

def InputFault.message : InputFault → String
  | .mismatch expected found => "expected " ++ expected ++ ", found " ++ found
  | .wrongLength expected found =>
    "expected " ++ toString expected ++ " elements, found " ++ toString found
  | .wrongFields missing unexpected =>
    "field set mismatch (missing: [" ++ ", ".intercalate missing ++ "], unexpected: [" ++
      ", ".intercalate unexpected ++ "])"
  | .negative value => "unsigned integer cannot be negative: " ++ value.text

structure InputError where
  path : Path
  fault : InputFault
deriving DecidableEq, Repr

namespace InputError

def rebase (base : Path) (e : InputError) : InputError :=
  { e with path := base.join e.path }

def message (e : InputError) : String :=
  "at " ++ e.path.describe ++ ": " ++ e.fault.message

end InputError

end CircuitForm
