import CircuitForm.Json.Basic
import CircuitForm.Json.Structure

/-!
# Reading JSON values

Objects are read in one of two ways. As data, a name that comes again replaces the earlier
value, and an object that starts with the reserved key stands for the number its text spells.
Verbatim, every member is kept as it is written. Brackets may be open 127 deep.
-/

namespace CircuitForm.Json

inductive Keeping where
  | data
  | verbatim
deriving DecidableEq, Repr

def depthLimit : Nat := 127

/-- An object whose first key this is holds the text of a number. -/
def reservedKey : String := "$serde_json::private::Number"

def Keeping.add : Keeping → Entries Json → String → Json → Entries Json
  | .data, entries, name, value => entries.insert name value
  | .verbatim, entries, name, value => entries ++ [(name, value)]

def scalar : Bytes → Except Fault (Json × Bytes)
  | [] => .error (.ahead (.endIn .value) [])
  | b :: rest =>
    if b = Ascii.ofChar 'n' then
      (Scan.word (Bytes.ofString "ull") rest).map fun rest => (.null, rest)
    else if b = Ascii.ofChar 't' then
      (Scan.word (Bytes.ofString "rue") rest).map fun rest => (.bool true, rest)
    else if b = Ascii.ofChar 'f' then
      (Scan.word (Bytes.ofString "alse") rest).map fun rest => (.bool false, rest)
    else if b = Ascii.minus || Scan.isDigit b then
      (Scan.numeral (.endIn .value) (b :: rest)).map fun (n, rest) => (.number n, rest)
    else if b = Ascii.quote then
      (Scan.string rest).map fun (s, rest) => (.string s, rest)
    else
      .error (.ahead .noValue (b :: rest))

def Found.ofJson : Json → Found
  | .null => .null
  | .bool b => .boolean b
  | .number n => .ofNumeral n
  | .string s => .string s
  | .array _ => .sequence
  | .object _ => .map

/-- The fault of a value, at the front of the text, that is not of the expected kind. A scalar is
read first, and its own faults come before this one. -/
def wrongType (expected : String) : Bytes → Fault
  | [] => .ahead .noValue []
  | b :: rest =>
    if b = Ascii.openBracket then .settled (.wrongType .sequence expected) (b :: rest)
    else if b = Ascii.openBrace then .settled (.wrongType .map expected) (b :: rest)
    else
      match scalar (b :: rest) with
      | .ok (json, rest) => .settled (.wrongType (.ofJson json) expected) rest
      | .error fault => fault

def numeralText (text : Bytes) : Except Fault Numeral :=
  match text with
  | [] => .error (.ahead (.endIn .value) [])
  | b :: _ =>
    if b = Ascii.minus || Scan.isDigit b then
      match Scan.numeral (.endIn .value) text with
      | .ok (n, []) => .ok n
      | .ok (_, b :: rest) => .error (.ahead .badNumber (b :: rest))
      | .error fault =>
        if fault.place.unread.isEmpty then .error fault
        else .error (.ahead .badNumber fault.place.unread)
    else
      .error (.ahead .badNumber text)

/-- Reads the string under the reserved key. Faults of the number in it have their position in
that string. -/
def reservedNumber (text : Bytes) : Except Fault (Json × Bytes) :=
  match Scan.skipBlank text with
  | [] => .error (.ahead (.endIn .value) [])
  | b :: rest =>
    if b = Ascii.quote then do
      let (s, rest) ← Scan.string rest
      match numeralText (Bytes.ofString s) with
      | .ok n => .ok (.number n, rest)
      | .error fault =>
        let position := (fault.place.position? (Bytes.ofString s)).getD ⟨1, 0⟩
        .error ⟨fault.reason, .inner position, []⟩
    else
      .error (wrongType "string containing a number" (b :: rest))

def member (keep : Keeping) (nested : Bytes → Except Fault (Json × Bytes))
    (entries : Entries Json) (name : String) (text : Bytes) :
    Except Fault (Entries Json × Bytes) := do
  let rest ← colon text
  let (value, rest) ← within (.key name) (nested rest)
  .ok (keep.add entries name value, rest)

def objectBody (keep : Keeping) (nested : Bytes → Except Fault (Json × Bytes)) (text : Bytes) :
    Except Fault (Json × Bytes) := do
  let (first, rest) ← within .unknown (nextKey true text)
  match first with
  | none => .ok (.object [], rest)
  | some name =>
    if keep = .data ∧ name = reservedKey then
      let rest ← colon rest
      within (.key name) (reservedNumber rest)
    else
      let (entries, rest) ← member keep nested [] name rest
      let (entries, rest) ← members (member keep nested) (rest.length + 1) false entries rest
      .ok (.object entries, rest)

/-- Reads a value. The reader of nested values is absent where no more brackets may be opened. -/
def valueWith (keep : Keeping) (nested : Option (Bytes → Except Fault (Json × Bytes)))
    (text : Bytes) : Except Fault (Json × Bytes) :=
  match Scan.skipBlank text with
  | [] => .error (.ahead (.endIn .value) [])
  | b :: rest =>
    if b = Ascii.openBracket then
      match nested with
      | none => .error (.ahead .tooDeep (b :: rest))
      | some nested =>
        closing endList <| (elements nested (rest.length + 1) 0 rest).map fun (items, rest) =>
          (.array items, rest)
    else if b = Ascii.openBrace then
      match nested with
      | none => .error (.ahead .tooDeep (b :: rest))
      | some nested => closing endObject (objectBody keep nested rest)
    else
      scalar (b :: rest)

def value (keep : Keeping) : (depth : Nat) → Bytes → Except Fault (Json × Bytes)
  | 0 => valueWith keep none
  | depth + 1 => valueWith keep (some (value keep depth))

/-- Nothing but blanks may follow the value that a text is. -/
def atEnd (text : Bytes) : Except Fault Unit :=
  match Scan.skipBlank text with
  | [] => .ok ()
  | b :: rest => .error (.ahead .trailingCharacters (b :: rest))

def ofText (text : Bytes) : Except Fault Json := do
  let (json, rest) ← value .data depthLimit text
  atEnd rest
  .ok json

end CircuitForm.Json
