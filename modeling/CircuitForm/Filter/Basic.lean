import CircuitForm.Json.Basic
import CircuitForm.Json.Shortest

/-!
# Filters

A filter turns one JSON value into any number of them. It is used to select the documents in a
file before they are checked. An output of a filter may be an error.
-/

namespace CircuitForm

inductive MathOp where
  | add
  | subtract
  | multiply
deriving DecidableEq, Repr

inductive CompareOp where
  | equal
  | unequal
  | less
  | lessEqual
  | greater
  | greaterEqual
deriving DecidableEq, Repr

inductive Filter where
  | identity
  | literal (json : Json)
  | variable (name : String)
  | call (name : String) (arguments : List Filter)
  | array (body : Filter)
  | object (entries : List (Filter × Filter))
  | negate (f : Filter)
  | pipe (f g : Filter)
  | comma (f g : Filter)
  | alternative (f g : Filter)
  | conjunction (f g : Filter)
  | disjunction (f g : Filter)
  | math (op : MathOp) (f g : Filter)
  | compare (op : CompareOp) (f g : Filter)
  | conditional (condition yes no : Filter)
  | attempt (f : Filter)
  | each (base : Filter) (lenient : Bool)
  | index (base at_ : Filter) (lenient : Bool)
  | slice (base low high : Filter) (lenient : Bool)
deriving Inhabited, Repr

inductive FilterError where
  | parse
  | undefined
  | failed
  | unreadable (index : Nat) (text message : String)
deriving DecidableEq, Repr

/-- The class of an error, and for an output that cannot be read back what is wrong with it. -/
def FilterError.message : FilterError → String
  | .parse => "JqParse"
  | .undefined => "JqUndefined"
  | .failed => "JqFailed"
  | .unreadable index text message =>
    "jq output #" ++ toString index ++ " is not JSON: " ++ text ++ ": " ++ message

namespace Filter

def builtins : List (String × Nat) :=
  [("null", 0), ("true", 0), ("false", 0), ("select", 1), ("map", 1), ("length", 0), ("keys", 0),
    ("not", 0), ("empty", 0), ("add", 0), ("error", 0), ("error", 1)]

mutual

/-- Whether every function and variable of a filter is known. No variable is. -/
def isDefined : Filter → Bool
  | .identity | .literal _ => true
  | .variable _ => false
  | .call name arguments =>
    builtins.contains (name, arguments.length) && areDefined arguments
  | .array f | .negate f | .attempt f | .each f _ => isDefined f
  | .object entries => entriesDefined entries
  | .pipe f g | .comma f g | .alternative f g | .conjunction f g | .disjunction f g
  | .math _ f g | .compare _ f g | .index f g _ => isDefined f && isDefined g
  | .conditional f g h | .slice f g h _ => isDefined f && isDefined g && isDefined h

def areDefined : List Filter → Bool
  | [] => true
  | f :: rest => isDefined f && areDefined rest

def entriesDefined : List (Filter × Filter) → Bool
  | [] => true
  | (f, g) :: rest => isDefined f && isDefined g && entriesDefined rest

end

end Filter

end CircuitForm
