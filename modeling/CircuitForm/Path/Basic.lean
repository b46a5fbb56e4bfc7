import CircuitForm.Text.Bytes

/-!
# Paths into input trees

A path is a row of segments from the root. An index addresses an element of a list, a key a
field of a struct; of a path into the inputs of a program the first segment is the name of a
parameter.
-/

namespace CircuitForm

inductive Segment where
  | index (i : Nat)
  | key (name : String)
deriving DecidableEq, Repr

abbrev Path := List Segment

namespace Segment

/-- Indexes come before keys; indexes go by number, keys by the bytes of their UTF-8 form. -/
def compare : Segment → Segment → Ordering
  | .index i, .index j => Ord.compare i j
  | .index _, .key _ => .lt
  | .key _, .index _ => .gt
  | .key a, .key b => Ord.compare (Bytes.ofString a) (Bytes.ofString b)

end Segment

namespace Path

/-- Lexicographic by segment; a path comes before the paths below it. -/
def compare : Path → Path → Ordering
  | [], [] => .eq
  | [], _ :: _ => .lt
  | _ :: _, [] => .gt
  | a :: p, b :: q => (a.compare b).then (compare p q)

def child (path : Path) (segment : Segment) : Path :=
  path ++ [segment]

def join (base relative : Path) : Path :=
  base ++ relative

def startsWith (path base : Path) : Bool :=
  base.isPrefixOf path

/-- Segments other than the first: a key is set off by a point, an index stands in brackets. -/
def laterChars : Path → List Char
  | [] => []
  | .key name :: rest => '.' :: name.toList ++ laterChars rest
  | .index i :: rest => '[' :: (toString i).toList ++ ']' :: laterChars rest

def chars : Path → List Char
  | .key name :: rest => name.toList ++ laterChars rest
  | path => laterChars path

def display (path : Path) : String :=
  String.ofList path.chars

def describe (path : Path) : String :=
  if path.isEmpty then "<root>" else path.display

theorem startsWith_iff {path base : Path} : path.startsWith base = true ↔ base <+: path := by
  simp [startsWith]

theorem join_assoc (p q r : Path) : (p.join q).join r = p.join (q.join r) :=
  List.append_assoc p q r

theorem join_child (p q : Path) (s : Segment) : p.join (q.child s) = (p.join q).child s :=
  (List.append_assoc p q [s]).symm

end Path

end CircuitForm
