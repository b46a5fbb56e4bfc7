import CircuitForm.Filter.Calculation
import CircuitForm.Filter.Parser
import CircuitForm.Json.Printer
import CircuitForm.Json.Reader

/-!
# Running filters

The outputs of a filter form a list in which a failure takes the place of an output. Where two
filters are combined, the outputs of the left one change slowest.
-/

namespace CircuitForm

def MathOp.result? : MathOp → Json → Json → Option Json
  | .add => Json.plus?
  | .subtract => Json.minus?
  | .multiply => Json.times?

def CompareOp.holds : CompareOp → Ordering → Bool
  | .equal, order => order == .eq
  | .unequal, order => order != .eq
  | .less, order => order.isLT
  | .lessEqual, order => order.isLE
  | .greater, order => order.isGT
  | .greaterEqual, order => order.isGE

namespace Filter

abbrev Outputs := List (Option Json)

namespace Outputs

/-- Goes on with every output; failures stay where they are. -/
def andThen (outputs : Outputs) (f : Json → Outputs) : Outputs :=
  outputs.flatMap fun
    | none => [none]
    | some json => f json

def collect (outputs : Outputs) : Option Json :=
  (outputs.mapM id).map .array

def keep (outputs : Outputs) (lenient : Bool) : Outputs :=
  if lenient then outputs.filter Option.isSome else outputs

def ofChildren (json : Json) : Outputs :=
  match json.children? with
  | some items => items.map some
  | none => [none]

def truth (outputs : Outputs) : Outputs :=
  outputs.map (·.map fun json => .bool json.isTruthy)

end Outputs

def apply (name : String) (arguments : List (Json → Outputs)) (input : Json) : Outputs :=
  match name, arguments with
  | "null", [] => [some .null]
  | "true", [] => [some (.bool true)]
  | "false", [] => [some (.bool false)]
  | "not", [] => [some (.bool (!input.isTruthy))]
  | "empty", [] => []
  | "length", [] => [input.length?]
  | "keys", [] => [input.keys?]
  | "add", [] => [input.sum?]
  | "select", [f] => (f input).andThen fun chosen => if chosen.isTruthy then [some input] else []
  | "map", [f] => [((Outputs.ofChildren input).andThen f).collect]
  | _, _ => [none]

mutual

def outputs : Filter → Json → Outputs
  | .identity, input => [some input]
  | .literal json, _ => [some json.plain]
  | .variable _, _ => [none]
  | .call name arguments, input => apply name (outputsOfAll arguments) input
  | .array f, input => [(outputs f input).collect]
  | .object entries, input => outputsOfEntries entries [] input
  | .negate f, input => (outputs f input).andThen fun a => [a.negative?]
  | .pipe f g, input => (outputs f input).andThen (outputs g)
  | .comma f g, input => outputs f input ++ outputs g input
  | .alternative f g, input =>
    match (outputs f input).filter fun a => (a.map Json.isTruthy).getD true with
    | [] => outputs g input
    | found => found
  | .conjunction f g, input =>
    (outputs f input).andThen fun a =>
      if a.isTruthy then (outputs g input).truth else [some (.bool false)]
  | .disjunction f g, input =>
    (outputs f input).andThen fun a =>
      if a.isTruthy then [some (.bool true)] else (outputs g input).truth
  | .math op f g, input =>
    (outputs f input).andThen fun a => (outputs g input).andThen fun b => [op.result? a b]
  | .compare op f g, input =>
    (outputs f input).andThen fun a => (outputs g input).andThen fun b =>
      [some (.bool (op.holds (a.order b)))]
  | .conditional condition yes no, input =>
    (outputs condition input).andThen fun a =>
      if a.isTruthy then outputs yes input else outputs no input
  | .attempt f, input => (outputs f input).keep true
  | .each base lenient, input =>
    (outputs base input).andThen fun a => (Outputs.ofChildren a).keep lenient
  | .index base at_ lenient, input =>
    (outputs base input).andThen fun a => (outputs at_ input).andThen fun i =>
      Outputs.keep [a.child? i] lenient
  | .slice base low high lenient, input =>
    (outputs base input).andThen fun a => (outputs low input).andThen fun i =>
      (outputs high input).andThen fun j => Outputs.keep [a.slice? i j] lenient

def outputsOfAll : List Filter → List (Json → Outputs)
  | [] => []
  | f :: rest => outputs f :: outputsOfAll rest

/-- The objects that have some members already and get those of the entries. -/
def outputsOfEntries : List (Filter × Filter) → Entries Json → Json → Outputs
  | [], members, _ => [some (.object members)]
  | (f, g) :: rest, members, input =>
    (outputs f input).andThen fun key => (outputs g input).andThen fun value =>
      match key with
      | .string name => outputsOfEntries rest (members.insert name value) input
      | _ => [none]

end

/-- An output is printed and read back, so that it is a value that a document can hold. -/
def readBack (place : Nat) : Option Json → Except FilterError Json
  | none => .error .failed
  | some json =>
    let text := json.compact
    (Json.ofText (Bytes.ofString text)).mapError fun fault =>
      .unreadable place text (fault.message (Bytes.ofString text))

def readBackFrom : (place : Nat) → Outputs → Except FilterError (List Json)
  | _, [] => .ok []
  | place, output :: rest => do
    let json ← readBack place output
    let more ← readBackFrom (place + 1) rest
    .ok (json :: more)

/-- Reads a filter and applies it to a value. The first failure among the outputs fails it all. -/
def run (source : String) (input : Json) : Except FilterError (List Json) :=
  match parse? source with
  | none => .error .parse
  | some f =>
    if isDefined f then readBackFrom 0 (outputs f input.plain) else .error .undefined

end Filter

end CircuitForm
