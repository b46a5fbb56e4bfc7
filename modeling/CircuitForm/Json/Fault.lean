import CircuitForm.Text.Bytes
import CircuitForm.Text.Quoted
import CircuitForm.Json.Numeral

/-!
# Faults of a JSON document

Why a document is refused, where in its text, and where in its structure. A place is kept as
what is still unread there, and becomes a line and a column only when a message is written.
Columns count bytes.
-/

namespace CircuitForm.Json

inductive Part where
  | value
  | list
  | object
  | string
deriving DecidableEq, Repr

inductive Malformed where
  | endIn (part : Part)
  | noValue
  | misspelledWord
  | noColon
  | noListSeparator
  | noObjectSeparator
  | keyNotString
  | trailingComma
  | trailingCharacters
  | badNumber
  | controlCharacter
  | badEscape
  | loneSurrogate
  | unfinishedSurrogate
  | notUnicode
  | tooDeep
deriving DecidableEq, Repr

def Part.phrase : Part → String
  | .value => "a value"
  | .list => "a list"
  | .object => "an object"
  | .string => "a string"

def Malformed.message : Malformed → String
  | .endIn part => "EOF while parsing " ++ part.phrase
  | .noValue => "expected value"
  | .misspelledWord => "expected ident"
  | .noColon => "expected `:`"
  | .noListSeparator => "expected `,` or `]`"
  | .noObjectSeparator => "expected `,` or `\x7d`"
  | .keyNotString => "key must be a string"
  | .trailingComma => "trailing comma"
  | .trailingCharacters => "trailing characters"
  | .badNumber => "invalid number"
  | .controlCharacter => "control character (\\u0000-\\u001F) found while parsing a string"
  | .badEscape => "invalid escape"
  | .loneSurrogate => "lone leading surrogate in hex escape"
  | .unfinishedSurrogate => "unexpected end of hex escape"
  | .notUnicode => "invalid unicode code point"
  | .tooDeep => "recursion limit exceeded"

inductive Found where
  | null
  | boolean (b : Bool)
  | integer (i : Int)
  | number
  | string (s : String)
  | sequence
  | map
deriving DecidableEq, Repr

def Found.phrase : Found → String
  | .null => "null"
  | .boolean b => "boolean `" ++ (if b then "true" else "false") ++ "`"
  | .integer i => "integer `" ++ toString i ++ "`"
  | .number => "number"
  | .string s => "string " ++ Text.quoted s
  | .sequence => "sequence"
  | .map => "map"

/-- A number is named as an integer only if it is one of 64 bits. -/
def Found.ofNumeral (n : Numeral) : Found :=
  match n.integer? with
  | some i => .integer i
  | none => .number

inductive Reason where
  | malformed (malformed : Malformed)
  | wrongType (found : Found) (expected : String)
  | wrongValue (found : Found) (expected : String)
  | wrongLength (found : Nat) (expected : String)
  | unknownVariant (name : String) (known : List String)
  | missingField (name : String)
  | repeatedField (name : String)
  | nullInput
deriving DecidableEq, Repr

def backticked (name : String) : String :=
  "`" ++ name ++ "`"

/-- One name stands alone, two are joined by "or", more are listed. -/
def oneOf : List String → String
  | [a] => backticked a
  | [a, b] => backticked a ++ " or " ++ backticked b
  | names => "one of " ++ ", ".intercalate (names.map backticked)

def Reason.message : Reason → String
  | .malformed m => m.message
  | .wrongType found expected => "invalid type: " ++ found.phrase ++ ", expected " ++ expected
  | .wrongValue found expected => "invalid value: " ++ found.phrase ++ ", expected " ++ expected
  | .wrongLength found expected =>
    "invalid length " ++ toString found ++ ", expected " ++ expected
  | .unknownVariant name known =>
    "unknown variant " ++ backticked name ++ ", expected " ++ oneOf known
  | .missingField name => "missing field " ++ backticked name
  | .repeatedField name => "duplicate field " ++ backticked name
  | .nullInput => "null is not an input value"

structure Position where
  line : Nat
  column : Nat
deriving DecidableEq, Repr

namespace Position

/-- The position after a text: its lines, and the bytes since the last line break. -/
def after (text : Bytes) : Position :=
  ⟨1 + text.count Ascii.newline, (text.reverse.takeWhile (· != Ascii.newline)).length⟩

def suffix (p : Position) : String :=
  " at line " ++ toString p.line ++ " column " ++ toString p.column

end Position

/-- Where a fault is: after everything but the unread bytes, upon the first unread byte, at a
position of a text inside the document, or not yet settled, the reader having come as far as
the unread bytes. -/
inductive Place where
  | before (unread : Bytes)
  | upon (unread : Bytes)
  | inner (position : Position)
  | unsettled (unread : Bytes)
deriving DecidableEq, Repr

def Place.position? (document : Bytes) : Place → Option Position
  | .before unread => some (.after (document.take (document.length - unread.length)))
  | .upon unread => some (.after (document.take (document.length - (unread.length - 1))))
  | .inner position => some position
  | .unsettled _ => none

/-- One step into the structure of a document; `unknown` stands for a member whose key could not
be read. -/
inductive Step where
  | key (name : String)
  | index (i : Nat)
  | unknown
deriving DecidableEq, Repr

def Step.text : Step → String
  | .key name => name
  | .index i => "[" ++ toString i ++ "]"
  | .unknown => "?"

/-- Steps other than indexes are set off by a point from what comes before them. -/
def stepsText : List Step → String
  | [] => "."
  | first :: more => first.text ++ String.join (more.map fun step =>
      match step with
      | .index _ => step.text
      | _ => "." ++ step.text)

structure Fault where
  reason : Reason
  place : Place
  path : List Step
deriving DecidableEq, Repr

namespace Fault

/-- The reader stands before the unread bytes, having taken the offending one. -/
def behind (m : Malformed) (unread : Bytes) : Fault :=
  ⟨.malformed m, .before unread, []⟩

/-- The first unread byte is the offending one. -/
def ahead (m : Malformed) (unread : Bytes) : Fault :=
  ⟨.malformed m, .upon unread, []⟩

/-- A fault of the data, noticed after the value it is about. -/
def settled (reason : Reason) (unread : Bytes) : Fault :=
  ⟨reason, .before unread, []⟩

/-- A fault of the data whose place is decided by the brackets around it. -/
def unsettled (reason : Reason) (unread : Bytes) : Fault :=
  ⟨reason, .unsettled unread, []⟩

def under (step : Step) (fault : Fault) : Fault :=
  { fault with path := step :: fault.path }

def message (document : Bytes) (fault : Fault) : String :=
  fault.reason.message ++ ((fault.place.position? document).map Position.suffix).getD ""

end Fault

structure DocumentError where
  path : String
  message : String
deriving DecidableEq, Repr

def DocumentError.text (e : DocumentError) : String :=
  "at JSON path " ++ e.path ++ " → " ++ e.message

def Fault.report (document : Bytes) (fault : Fault) : DocumentError :=
  ⟨stepsText fault.path, fault.message document⟩

end CircuitForm.Json
