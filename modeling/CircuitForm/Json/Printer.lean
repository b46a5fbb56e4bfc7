import CircuitForm.Json.Basic

/-!
# Printing JSON values

The compact form has no blanks. The indented form puts every element and member on a line of
its own, two spaces deeper than its brackets; an empty list or object stays on one line. Of a
string only quotes, backslashes and control characters are escaped.
-/

namespace CircuitForm.Json

def escapeChar (c : Char) : List Char :=
  match c with
  | '"' => ['\\', '"']
  | '\\' => ['\\', '\\']
  | '\x08' => ['\\', 'b']
  | '\t' => ['\\', 't']
  | '\n' => ['\\', 'n']
  | '\x0c' => ['\\', 'f']
  | '\r' => ['\\', 'r']
  | c =>
    if c.toNat < 0x20 then
      ['\\', 'u', '0', '0', Nat.digitChar (c.toNat / 16), Nat.digitChar (c.toNat % 16)]
    else
      [c]

def stringChars (s : String) : List Char :=
  '"' :: s.toList.flatMap escapeChar ++ ['"']

mutual

def compactChars : Json → List Char
  | .null => "null".toList
  | .bool b => (if b then "true" else "false").toList
  | .number n => n.chars
  | .string s => stringChars s
  | .array items => '[' :: compactItems items ++ [']']
  | .object members => '{' :: compactMembers members ++ ['}']

def compactItems : List Json → List Char
  | [] => []
  | [item] => compactChars item
  | item :: next :: rest => compactChars item ++ ',' :: compactItems (next :: rest)

def compactMembers : List (String × Json) → List Char
  | [] => []
  | [(name, item)] => stringChars name ++ ':' :: compactChars item
  | (name, item) :: next :: rest =>
    stringChars name ++ ':' :: compactChars item ++ ',' :: compactMembers (next :: rest)

end

/-- A line break and the blanks at the start of a line of the given depth. -/
def lineStart (depth : Nat) : List Char :=
  '\n' :: List.replicate (2 * depth) ' '

mutual

def prettyChars (depth : Nat) : Json → List Char
  | .null => "null".toList
  | .bool b => (if b then "true" else "false").toList
  | .number n => n.chars
  | .string s => stringChars s
  | .array [] => ['[', ']']
  | .array (item :: rest) =>
    '[' :: prettyItems (depth + 1) (item :: rest) ++ lineStart depth ++ [']']
  | .object [] => ['{', '}']
  | .object (item :: rest) =>
    '{' :: prettyMembers (depth + 1) (item :: rest) ++ lineStart depth ++ ['}']

def prettyItems (depth : Nat) : List Json → List Char
  | [] => []
  | [item] => lineStart depth ++ prettyChars depth item
  | item :: next :: rest =>
    lineStart depth ++ prettyChars depth item ++ ',' :: prettyItems depth (next :: rest)

def prettyMembers (depth : Nat) : List (String × Json) → List Char
  | [] => []
  | [(name, item)] => lineStart depth ++ stringChars name ++ ':' :: ' ' :: prettyChars depth item
  | (name, item) :: next :: rest =>
    lineStart depth ++ stringChars name ++ ':' :: ' ' :: prettyChars depth item ++
      ',' :: prettyMembers depth (next :: rest)

end

def compact (json : Json) : String :=
  String.ofList json.compactChars

def pretty (json : Json) : String :=
  String.ofList (json.prettyChars 0)

end CircuitForm.Json
