import CircuitForm.Json.Order

/-!
# Calculating with JSON values

What the operators and functions of filters do to values; `none` is a failure. Integers of 64
bits are calculated with as such while the result is one. Other numbers keep their digits until
then and become doubles.
-/

namespace CircuitForm

def Numeral.plain (n : Numeral) : Numeral :=
  match n.int64? with
  | some i => .ofInt i
  | none => n

namespace Json

mutual

def plain : Json → Json
  | .number n => .number n.plain
  | .array items => .array (plainItems items)
  | .object members => .object (plainMembers members)
  | .null => .null
  | .bool b => .bool b
  | .string s => .string s

def plainItems : List Json → List Json
  | [] => []
  | item :: rest => plain item :: plainItems rest

def plainMembers : List (String × Json) → List (String × Json)
  | [] => []
  | (name, item) :: rest => (name, plain item) :: plainMembers rest

end

def isTruthy : Json → Bool
  | .null | .bool false => false
  | _ => true

def ofInt (i : Int) : Json :=
  .number (.ofInt i)

/-- The double as a value; infinities and NaN have no spelling and count as null. -/
def ofFloat (x : Float) : Json :=
  match Numeral.ofFloat? x with
  | some n => .number n
  | none => .null

def calculate (exact : Int → Int → Int) (rounded : Float → Float → Float) (m n : Numeral) :
    Json :=
  match m.int64?, n.int64? with
  | some i, some j =>
    match (Numeral.ofInt (exact i j)).int64? with
    | some k => ofInt k
    | none => ofFloat (rounded m.toFloat n.toFloat)
  | _, _ => ofFloat (rounded m.toFloat n.toFloat)

def join (as bs : Entries Json) : Entries Json :=
  bs.foldl (fun entries (name, b) => entries.insert name b) as

/-- Null is neutral. Of two members of one name the right one is kept, at the left one's place. -/
def plus? : Json → Json → Option Json
  | .null, b => some b
  | a, .null => some a
  | .number m, .number n => some (calculate (· + ·) (· + ·) m n)
  | .string a, .string b => some (.string (a ++ b))
  | .array as, .array bs => some (.array (as ++ bs))
  | .object as, .object bs => some (.object (join as bs))
  | _, _ => none

def minus? : Json → Json → Option Json
  | .number m, .number n => some (calculate (· - ·) (· - ·) m n)
  | .array as, .array bs =>
    some (.array (as.filter fun a => !bs.any fun b => order a b == .eq))
  | _, _ => none

/-- Joins objects at every depth; `fuel` bounds the depth. -/
def merge : (fuel : Nat) → Entries Json → Entries Json → Entries Json
  | 0, as, bs => join as bs
  | fuel + 1, as, bs =>
    bs.foldl (fun entries (name, b) =>
      let value := match entries.lookup name, b with
        | some (.object inner), .object added => Json.object (merge fuel inner added)
        | _, b => b
      entries.insert name value) as

def repeat? (s : String) (n : Numeral) : Option Json :=
  n.int64?.map fun i =>
    if 0 < i then .string (String.join (List.replicate i.toNat s)) else .null

def times? : Json → Json → Option Json
  | .number m, .number n => some (calculate (· * ·) (· * ·) m n)
  | .string s, .number n => repeat? s n
  | .number n, .string s => repeat? s n
  | .object as, .object bs => some (.object (merge (depth (.object bs)) as bs))
  | _, _ => none

def negative? : Json → Option Json
  | .number n =>
    match n.int64? with
    | some i => (Numeral.ofInt (-i)).int64?.map ofInt
    | none => some (ofFloat (-n.toFloat))
  | _ => none

/-- A place counted from the front, or from the end if it is negative. -/
def place? (length : Nat) (i : Int) : Option Nat :=
  if 0 ≤ i then some i.toNat
  else if -(length : Int) ≤ i then some (length + i).toNat
  else none

/-- One member or element; what is missing is null. -/
def child? : Json → Json → Option Json
  | .object members, .string name => some ((members.lookup name).getD .null)
  | .array items, .number n =>
    n.int64?.map fun i => ((place? items.length i).bind (items[·]?)).getD .null
  | _, _ => none

def children? : Json → Option (List Json)
  | .array items => some items
  | .object members => some (members.map Prod.snd)
  | _ => none

/-- The end of a slice, cut to the length; null is an end that is left out. -/
def bound? (length missing : Nat) : Json → Option Nat
  | .null => some missing
  | .number n => n.int64?.map fun i => min ((place? length i).getD 0) length
  | _ => none

def cut? {α : Type} (items : List α) (low high : Json) : Option (List α) := do
  let start ← bound? items.length 0 low
  let stop ← bound? items.length items.length high
  some ((items.take stop).drop start)

def slice? (json low high : Json) : Option Json :=
  match json with
  | .array items => (cut? items low high).map .array
  | .string s => (cut? s.toList low high).map fun chars => .string (String.ofList chars)
  | _ => none

def length? : Json → Option Json
  | .null => some (ofInt 0)
  | .bool _ => none
  | .number n =>
    match n.int64? with
    | some i => some (ofInt i.natAbs)
    | none => some (ofFloat n.toFloat.abs)
  | .string s => some (ofInt s.length)
  | .array items => some (ofInt items.length)
  | .object members => some (ofInt members.length)

def keys? : Json → Option Json
  | .array items => some (.array ((List.range items.length).map fun (i : Nat) => ofInt i))
  | .object members => some (.array ((sortedMembers members).names.map .string))
  | _ => none

def sum? (json : Json) : Option Json := do
  (← children? json).foldlM plus? .null

end Json

end CircuitForm
