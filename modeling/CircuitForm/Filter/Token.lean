import CircuitForm.Json.Numeral
import CircuitForm.Text.Blank

/-!
# Tokens of a filter

A filter is written with names, numbers, strings and marks, blanks between them counting for
nothing. A name right behind a point is one token with it, since it then names a member.
-/

namespace CircuitForm.Filter

inductive Mark where
  | point
  | bar
  | comma
  | colon
  | semicolon
  | question
  | plus
  | minus
  | star
  | twoSlashes
  | equal
  | unequal
  | less
  | lessEqual
  | greater
  | greaterEqual
  | openParen
  | closeParen
  | openBracket
  | closeBracket
  | openBrace
  | closeBrace
deriving DecidableEq, Repr

inductive Token where
  | word (name : String)
  | variable (name : String)
  | field (name : String)
  | number (n : Numeral)
  | quoted (s : String)
  | mark (m : Mark)
deriving DecidableEq, Repr

namespace Token

def isWordStart (c : Char) : Bool :=
  c.isAlpha || c == '_'

def isWordChar (c : Char) : Bool :=
  c.isAlphanum || c == '_'

/-- Reads a mark; of two that fit the longer one is taken. -/
def mark? : List Char → Option (Mark × List Char)
  | '=' :: '=' :: rest => some (.equal, rest)
  | '!' :: '=' :: rest => some (.unequal, rest)
  | '<' :: '=' :: rest => some (.lessEqual, rest)
  | '>' :: '=' :: rest => some (.greaterEqual, rest)
  | '/' :: '/' :: rest => some (.twoSlashes, rest)
  | '<' :: rest => some (.less, rest)
  | '>' :: rest => some (.greater, rest)
  | '.' :: rest => some (.point, rest)
  | '|' :: rest => some (.bar, rest)
  | ',' :: rest => some (.comma, rest)
  | ':' :: rest => some (.colon, rest)
  | ';' :: rest => some (.semicolon, rest)
  | '?' :: rest => some (.question, rest)
  | '+' :: rest => some (.plus, rest)
  | '-' :: rest => some (.minus, rest)
  | '*' :: rest => some (.star, rest)
  | '(' :: rest => some (.openParen, rest)
  | ')' :: rest => some (.closeParen, rest)
  | '[' :: rest => some (.openBracket, rest)
  | ']' :: rest => some (.closeBracket, rest)
  | '{' :: rest => some (.openBrace, rest)
  | '}' :: rest => some (.closeBrace, rest)
  | _ => none

def digit? (c : Char) : Option Digit :=
  if c.isDigit then Digit.ofByte? c.toNat.toUInt8 else none

def digits (text : List Char) : List Digit × List Char :=
  ((text.takeWhile Char.isDigit).filterMap digit?, text.dropWhile Char.isDigit)

def fraction? : List Char → Option (Option Digits × List Char)
  | '.' :: text =>
    match digits text with
    | (d :: ds, rest) => some (some ⟨d, ds⟩, rest)
    | ([], _) => none
  | text => some (none, text)

def exponentDigits? (negative : Bool) (text : List Char) : Option (Option Exponent × List Char) :=
  match digits text with
  | (d :: ds, rest) => some (some ⟨negative, ⟨d, ds⟩⟩, rest)
  | ([], _) => none

def exponent? : List Char → Option (Option Exponent × List Char)
  | [] => some (none, [])
  | c :: text =>
    if c = 'e' ∨ c = 'E' then
      match text with
      | '-' :: text => exponentDigits? true text
      | '+' :: text => exponentDigits? false text
      | text => exponentDigits? false text
    else
      some (none, c :: text)

/-- Reads a number without a sign. Zeros in front of it are dropped. -/
def number? (text : List Char) : Option (Numeral × List Char) := do
  let (whole, rest) := digits text
  let (fraction, rest) ← fraction? rest
  let (exponent, rest) ← exponent? rest
  let value := whole.foldl (fun value d => value * 10 + d.val) 0
  some (⟨false, WholeDigits.ofNat value, fraction, exponent⟩, rest)

def hexValue? (c : Char) : Option Nat :=
  if c.isDigit then some (c.toNat - '0'.toNat)
  else if 'a' ≤ c ∧ c ≤ 'f' then some (c.toNat - 'a'.toNat + 10)
  else if 'A' ≤ c ∧ c ≤ 'F' then some (c.toNat - 'A'.toNat + 10)
  else none

/-- The character with a code of four hexadecimal digits; a surrogate is none. -/
def codedChar? (a b c d : Char) : Option Char := do
  let code := (((← hexValue? a) * 16 + (← hexValue? b)) * 16 + (← hexValue? c)) * 16 +
    (← hexValue? d)
  if code.isValidChar then some (Char.ofNat code) else none

def escapedChar? : Char → Option Char
  | '"' => some '"'
  | '\\' => some '\\'
  | '/' => some '/'
  | 'b' => some '\x08'
  | 'f' => some '\x0c'
  | 'n' => some '\n'
  | 'r' => some '\r'
  | 't' => some '\t'
  | _ => none

def content? : List Char → Option (List Char × List Char)
  | [] => none
  | '"' :: rest => some ([], rest)
  | '\\' :: 'u' :: a :: b :: c :: d :: rest => do
    let char ← codedChar? a b c d
    let (more, rest) ← content? rest
    some (char :: more, rest)
  | '\\' :: c :: rest => do
    let char ← escapedChar? c
    let (more, rest) ← content? rest
    some (char :: more, rest)
  | ['\\'] => none
  | c :: rest => do
    let (more, rest) ← content? rest
    some (c :: more, rest)

def name (text : List Char) : String × List Char :=
  (String.ofList (text.takeWhile isWordChar), text.dropWhile isWordChar)

def first? : List Char → Option (Token × List Char)
  | [] => none
  | c :: rest =>
    if isWordStart c then
      let (name, rest) := name (c :: rest)
      some (.word name, rest)
    else if c.isDigit then
      (number? (c :: rest)).map fun (n, rest) => (.number n, rest)
    else if c = '"' then
      (content? rest).map fun (chars, rest) => (.quoted (String.ofList chars), rest)
    else
      let sigil := c = '$' ∨ c = '.'
      if sigil ∧ (rest.head?.map isWordStart).getD false then
        let (name, rest) := name rest
        some (if c = '$' then .variable name else .field name, rest)
      else
        (mark? (c :: rest)).map fun (m, rest) => (.mark m, rest)

/-- Reads tokens to the end of a text; `fuel` bounds their number. -/
def all? : (fuel : Nat) → List Char → Option (List Token)
  | 0, _ => none
  | fuel + 1, text =>
    match text.dropWhile Text.isBlank with
    | [] => some []
    | c :: text => do
      let (token, rest) ← first? (c :: text)
      let more ← all? fuel rest
      some (token :: more)

def ofText? (source : String) : Option (List Token) :=
  all? (source.length + 1) source.toList

end Token

end CircuitForm.Filter
