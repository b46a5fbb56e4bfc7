/-!
# File name patterns

In a pattern `?` stands for one character, `*` for any number of them, and brackets for one of a
set. Two stars are a whole component and stand for any directories. Braces are ordinary.
-/

namespace CircuitForm

def hasWildcards (text : String) : Bool :=
  text.toList.any fun c => c = '*' || c = '?' || c = '[' || c = '{'

inductive PatternFault where
  | badRange
  | badWildcards
  | badRecursion
deriving DecidableEq, Repr

structure PatternError where
  position : Nat
  fault : PatternFault
deriving DecidableEq, Repr

def PatternFault.message : PatternFault → String
  | .badRange => "invalid range pattern"
  | .badWildcards => "wildcards are either regular `*` or recursive `**`"
  | .badRecursion => "recursive wildcards must form a single path component"

def PatternError.message (e : PatternError) : String :=
  "Pattern syntax error near position " ++ toString e.position ++ ": " ++ e.fault.message

structure CharRange where
  low : Char
  high : Char
deriving DecidableEq, Repr

inductive PatternToken where
  | char (c : Char)
  | anyChar
  | anySequence
  | anyDirectories
  | within (set : List CharRange)
  | without (set : List CharRange)
deriving DecidableEq, Repr

abbrev Pattern := List PatternToken

namespace Pattern

/-- The set between brackets: single characters, and pairs of ends with a dash between. -/
def ranges : List Char → List CharRange
  | low :: '-' :: high :: rest => ⟨low, high⟩ :: ranges rest
  | c :: rest => ⟨c, c⟩ :: ranges rest
  | [] => []

/-- Reads a set after its opening bracket. Its first character is never its closing bracket. -/
def bracketed (text : List Char) : Option (PatternToken × List Char) :=
  let read := fun (make : List CharRange → PatternToken) (first : Char) (rest : List Char) =>
    match rest.dropWhile (· ≠ ']') with
    | [] => none
    | _ :: unread => some (make (ranges (first :: rest.takeWhile (· ≠ ']'))), unread)
  match text with
  | '!' :: first :: rest => read .without first rest
  | '!' :: [] => none
  | first :: rest => read .within first rest
  | [] => none

/-- Reads the tokens from a position on. Two stars need a slash or an end on either side. -/
def tokens : (fuel position : Nat) → (previous : Option Char) → List Char →
    Except PatternError Pattern
  | _, _, _, [] => .ok []
  | 0, position, _, _ :: _ => .error ⟨position, .badRange⟩
  | fuel + 1, position, previous, c :: rest =>
    if c = '?' then do
      let more ← tokens fuel (position + 1) (some c) rest
      .ok (.anyChar :: more)
    else if c = '*' then
      let after := rest.dropWhile (· = '*')
      match (rest.takeWhile (· = '*')).length with
      | 0 => do
        let more ← tokens fuel (position + 1) (some c) after
        .ok (.anySequence :: more)
      | 1 =>
        if position = 0 ∨ previous = some '/' then
          match after with
          | [] => .ok [.anyDirectories]
          | '/' :: after => do
            let more ← tokens fuel (position + 3) (some '/') after
            .ok (.anyDirectories :: more)
          | _ :: _ => .error ⟨position + 2, .badRecursion⟩
        else
          .error ⟨position - 1, .badRecursion⟩
      | _ => .error ⟨position + 2, .badWildcards⟩
    else if c = '[' then
      match bracketed rest with
      | none => .error ⟨position, .badRange⟩
      | some (token, unread) => do
        let more ← tokens fuel (position + 1 + (rest.length - unread.length)) (some ']') unread
        .ok (token :: more)
    else do
      let more ← tokens fuel (position + 1) (some c) rest
      .ok (.char c :: more)

def parse (text : String) : Except PatternError Pattern :=
  tokens text.length 0 none text.toList

def inRanges (set : List CharRange) (c : Char) : Bool :=
  set.any fun range => range.low ≤ c && c ≤ range.high

def anyTail (p : List Char → Bool) : List Char → Bool
  | [] => p []
  | c :: rest => p (c :: rest) || anyTail p rest

def matchesChars : Pattern → List Char → Bool
  | [], text => text.isEmpty
  | .anySequence :: more, text => anyTail (matchesChars more) text
  | .anyDirectories :: more, text => anyTail (matchesChars more) text
  | _ :: _, [] => false
  | .char c :: more, d :: text => c == d && matchesChars more text
  | .anyChar :: more, _ :: text => matchesChars more text
  | .within set :: more, d :: text => inRanges set d && matchesChars more text
  | .without set :: more, d :: text => !inRanges set d && matchesChars more text

def matchesName (pattern : Pattern) (name : String) : Bool :=
  matchesChars pattern name.toList

def isRecursive (pattern : Pattern) : Bool :=
  pattern.contains .anyDirectories

/-- The only text that a pattern without wildcards matches. -/
def literal? (pattern : Pattern) : Option String :=
  (pattern.mapM fun (token : PatternToken) =>
    match token with
    | .char c => some c
    | _ => none).map String.ofList

end Pattern

end CircuitForm
