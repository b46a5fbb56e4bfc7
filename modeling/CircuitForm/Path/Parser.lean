import CircuitForm.Path.Basic
import CircuitForm.Text.Blank
import CircuitForm.Text.Digit
import CircuitForm.Word

/-!
# Paths as text

A path is typed as `param.field[2].inner`; an index may also follow a point, as in `pair.0`.
Blanks at both ends are dropped. An index is below `2 ^ 64` and spelled with ASCII digits;
digits of other scripts are recognised as digits, but name no index.
-/

namespace CircuitForm

inductive PathFault where
  | noSegment
  | indexOutOfRange
  | trailingPoint
  | noSeparator
deriving DecidableEq, Repr

def PathFault.reason : PathFault → String
  | .noSegment => "expected a name or [index]"
  | .indexOutOfRange => "index out of range"
  | .trailingPoint => "trailing '.'"
  | .noSeparator => "segments must be separated by '.' or '['"

structure PathError where
  input : String
  fault : PathFault
deriving DecidableEq, Repr

def PathError.message (e : PathError) : String :=
  "invalid path `" ++ e.input ++ "`: " ++ e.fault.reason

namespace Path

def isNameStart (c : Char) : Bool :=
  c.isAlpha || c == '_'

def isNameChar (c : Char) : Bool :=
  c.isAlphanum || c == '_'

def indexOf (digits : List Char) : Except PathFault Segment :=
  match Text.naturalOfDigits? digits with
  | some i => if i < Word.bound64 then .ok (.index i) else .error .indexOutOfRange
  | none => .error .indexOutOfRange

def segment : List Char → Except PathFault (Segment × List Char)
  | [] => .error .noSegment
  | c :: rest =>
    if isNameStart c then
      .ok (.key (String.ofList (c :: rest.takeWhile isNameChar)), rest.dropWhile isNameChar)
    else if Text.isDecimalDigit c then
      (indexOf (c :: rest.takeWhile Text.isDecimalDigit)).map fun segment =>
        (segment, rest.dropWhile Text.isDecimalDigit)
    else if c = '[' then
      match rest.takeWhile Text.isDecimalDigit, rest.dropWhile Text.isDecimalDigit with
      | d :: ds, ']' :: unread => (indexOf (d :: ds)).map fun segment => (segment, unread)
      | _, _ => .error .noSegment
    else
      .error .noSegment

/-- Reads segments to the end of the text; `fuel` bounds their number. -/
def segments : (fuel : Nat) → List Char → Except PathFault Path
  | _, [] => .ok []
  | 0, _ :: _ => .error .noSegment
  | fuel + 1, c :: text => do
    let (first, rest) ← segment (c :: text)
    match rest with
    | [] => .ok [first]
    | ['.'] => .error .trailingPoint
    | '.' :: d :: unread => do
      let more ← segments fuel (d :: unread)
      .ok (first :: more)
    | '[' :: unread => do
      let more ← segments fuel ('[' :: unread)
      .ok (first :: more)
    | _ :: _ => .error .noSeparator

def parseChars (text : List Char) : Except PathFault Path :=
  segments text.length text

def parse (input : String) : Except PathError Path :=
  (parseChars (Text.trimList input.toList)).mapError fun fault => ⟨input, fault⟩

end Path

end CircuitForm
