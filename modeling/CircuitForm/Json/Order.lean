import CircuitForm.Json.Shortest
import CircuitForm.Json.Basic
import CircuitForm.Text.Bytes

/-!
# The order of JSON values

Values of different kinds are ordered by their kinds, null first and objects last. Numbers are
compared by value: as integers where both have 64 bits, and otherwise as doubles. Of objects the
sorted names are compared before the values.
-/

namespace CircuitForm

/-- The number as an integer of 64 bits with a sign, `-0` being one. -/
def Numeral.int64? (n : Numeral) : Option Int :=
  match n.int? with
  | some i => if Word.fits64 i then some i else none
  | none => none

namespace Json

def compareFloats (x y : Float) : Ordering :=
  if x < y then .lt else if y < x then .gt else .eq

def compareNumerals (m n : Numeral) : Ordering :=
  match m.int64?, n.int64? with
  | some i, some j => compare i j
  | _, _ => compareFloats m.toFloat n.toFloat

def compareNames (a b : String) : Ordering :=
  compare (Bytes.ofString a) (Bytes.ofString b)

def sortedMembers (members : Entries Json) : Entries Json :=
  members.mergeSort fun a b => (compareNames a.1 b.1).isLE

def rank : Json → Nat
  | .null => 0
  | .bool false => 1
  | .bool true => 2
  | .number _ => 3
  | .string _ => 4
  | .array _ => 5
  | .object _ => 6

/-- Compares lists at the first place where they differ; a list comes before its extensions. -/
def compareLists {α : Type} (f : α → α → Ordering) : List α → List α → Ordering
  | [], [] => .eq
  | [], _ :: _ => .lt
  | _ :: _, [] => .gt
  | a :: as, b :: bs => (f a b).then (compareLists f as bs)

mutual

def depth : Json → Nat
  | .array items => itemsDepth items + 1
  | .object members => membersDepth members + 1
  | _ => 0

def itemsDepth : List Json → Nat
  | [] => 0
  | item :: rest => max (depth item) (itemsDepth rest)

def membersDepth : List (String × Json) → Nat
  | [] => 0
  | (_, item) :: rest => max (depth item) (membersDepth rest)

end

def compareWithin : (depth : Nat) → Json → Json → Ordering
  | _, .number m, .number n => compareNumerals m n
  | _, .string a, .string b => compareNames a b
  | depth + 1, .array as, .array bs => compareLists (compareWithin depth) as bs
  | depth + 1, .object as, .object bs =>
    let as := sortedMembers as
    let bs := sortedMembers bs
    (compareLists compareNames as.names bs.names).then
      (compareLists (compareWithin depth) (as.map Prod.snd) (bs.map Prod.snd))
  | _, a, b => compare (rank a) (rank b)

def order (a b : Json) : Ordering :=
  compareWithin (depth a) a b

end Json

end CircuitForm
