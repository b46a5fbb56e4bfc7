import CircuitForm.Json.Reader
import CircuitForm.Json.Skip

/-!
# Decoders

A decoder reads a value of some type at the front of a document, with so many more brackets
allowed to be opened. A record is written as an object, whose unknown members are skipped, or as
the row of its fields in declared order.
-/

namespace CircuitForm.Json

abbrev Decoder (α : Type) := (depth : Nat) → Bytes → Except Fault (α × Bytes)

/-- What a record makes of a member: it does not know it, it has it already, or it reads it. -/
inductive Member (σ : Type) where
  | unknown
  | repeated
  | reads (read : Bytes → Except Fault (σ × Bytes))

namespace Decoder

variable {α σ : Type}

/-- Chooses by the first byte of the value: what to do after `[`, after `{`, and otherwise. -/
def brackets (list object : Decoder α) (other : Bytes → Except Fault (α × Bytes)) : Decoder α :=
  fun depth text =>
    match Scan.skipBlank text with
    | [] => .error (.ahead (.endIn .value) [])
    | b :: rest =>
      if b = Ascii.openBracket ∨ b = Ascii.openBrace then
        match depth with
        | 0 => .error (.ahead .tooDeep (b :: rest))
        | depth + 1 => if b = Ascii.openBracket then list depth rest else object depth rest
      else
        other (b :: rest)

def stringAs (expected : String) (text : Bytes) : Except Fault (String × Bytes) :=
  match Scan.skipBlank text with
  | [] => .error (.ahead (.endIn .value) [])
  | b :: rest =>
    if b = Ascii.quote then Scan.string rest else .error (wrongType expected (b :: rest))

def string : Decoder String :=
  fun _ text => stringAs "a string" text

def json : Decoder Json :=
  value .data

/-- `null` stands for no value. -/
def optional (decoder : Decoder α) : Decoder (Option α) :=
  fun depth text =>
    match Scan.skipBlank text with
    | [] => .error (.ahead (.endIn .value) [])
    | b :: rest =>
      if b = Ascii.ofChar 'n' then
        (Scan.word (Bytes.ofString "ull") rest).map fun rest => (none, rest)
      else
        (decoder depth (b :: rest)).map fun (a, rest) => (some a, rest)

def list (item : Decoder α) : Decoder (List α) :=
  fun depth text =>
    match Scan.skipBlank text with
    | [] => .error (.ahead (.endIn .value) [])
    | b :: rest =>
      if b = Ascii.openBracket then
        match depth with
        | 0 => .error (.ahead .tooDeep (b :: rest))
        | depth + 1 => closing endList (elements (item depth) (rest.length + 1) 0 rest)
      else
        .error (wrongType "a sequence" (b :: rest))

def entry (item : Bytes → Except Fault (α × Bytes)) (entries : Entries α) (name : String)
    (text : Bytes) : Except Fault (Entries α × Bytes) := do
  let rest ← colon text
  let (value, rest) ← within (.key name) (item rest)
  .ok (entries.insert name value, rest)

/-- Reads an object as named entries; the last of a name wins, at the place of the first. -/
def map (item : Decoder α) : Decoder (Entries α) :=
  fun depth text =>
    match Scan.skipBlank text with
    | [] => .error (.ahead (.endIn .value) [])
    | b :: rest =>
      if b = Ascii.openBrace then
        match depth with
        | 0 => .error (.ahead .tooDeep (b :: rest))
        | depth + 1 =>
          closing endObject (members (entry (item depth)) (rest.length + 1) true [] rest)
      else
        .error (wrongType "a map" (b :: rest))

def named (known : List (String × α)) (text : Bytes) : Except Fault (α × Bytes) := do
  let (name, rest) ← stringAs "variant identifier" text
  match known.lookup name with
  | some a => .ok (a, rest)
  | none => .error (.settled (.unknownVariant name (known.map Prod.fst)) rest)

def unit (text : Bytes) : Except Fault Bytes :=
  match Scan.skipBlank text with
  | [] => .error (.ahead (.endIn .value) [])
  | b :: rest =>
    if b = Ascii.ofChar 'n' then Scan.word (Bytes.ofString "ull") rest
    else .error (wrongType "unit" (b :: rest))

/-- Reads a named value in the long form, an object whose only key is the name and whose only
value is `null`, after its opening brace. -/
def namedInObject (known : List (String × α)) (nameOf : α → String) (text : Bytes) :
    Except Fault (α × Bytes) := do
  let (a, rest) ← named known text
  let rest ← colon rest
  let rest ← within (.key (nameOf a)) (unit rest)
  match Scan.skipBlank rest with
  | [] => .error (.behind (.endIn .object) [])
  | b :: unread =>
    if b = Ascii.closeBrace then .ok (a, unread) else .error (.behind .noValue (b :: unread))

def choice (known : List (String × α)) (nameOf : α → String) : Decoder α :=
  fun depth text =>
    match Scan.skipBlank text with
    | [] => .error (.ahead (.endIn .value) [])
    | b :: rest =>
      if b = Ascii.quote then named known (b :: rest)
      else if b = Ascii.openBrace then
        match depth with
        | 0 => .error (.ahead .tooDeep (b :: rest))
        | _ + 1 => namedInObject known nameOf rest
      else
        .error (.ahead .noValue (b :: rest))

def rowElement (index : Nat) (item : Bytes → Except Fault (α × Bytes)) (text : Bytes) :
    Except Fault (Option α × Bytes) := do
  let (more, rest) ← nextElement (index == 0) text
  if more then
    (within (.index index) (item rest)).map fun (a, rest) => (some a, rest)
  else
    .ok (none, rest)

/-- An element that a row must have; `expected` says in a message what the row stands for. -/
def rowField (expected : String) (index : Nat) (item : Bytes → Except Fault (α × Bytes))
    (text : Bytes) : Except Fault (α × Bytes) := do
  let (element, rest) ← rowElement index item text
  match element with
  | some a => .ok (a, rest)
  | none => .error (.unsettled (.wrongLength index expected) rest)

def rowFieldD (default : α) (index : Nat) (item : Bytes → Except Fault (α × Bytes))
    (text : Bytes) : Except Fault (α × Bytes) :=
  (rowElement index item text).map fun (element, rest) => (element.getD default, rest)

def recordMember (field : σ → String → Member σ) (state : σ) (name : String) (text : Bytes) :
    Except Fault (σ × Bytes) :=
  match field state name with
  | .repeated => .error (.unsettled (.repeatedField name) text)
  | .unknown => do
    let rest ← colon text
    let rest ← within (.key name) (Skip.value rest)
    .ok (state, rest)
  | .reads read => do
    let rest ← colon text
    within (.key name) (read rest)

def recordBody (start : σ) (field : σ → String → Member σ) (finish : σ → Except Reason α)
    (text : Bytes) : Except Fault (α × Bytes) := do
  let (state, rest) ← members (recordMember field) (text.length + 1) true start text
  match finish state with
  | .ok a => .ok (a, rest)
  | .error reason => .error (.unsettled reason rest)

def record (expected : String) (start : σ) (field : Nat → σ → String → Member σ)
    (finish : σ → Except Reason α) (row : Decoder α) : Decoder α :=
  brackets (fun depth rest => closing endList (row depth rest))
    (fun depth rest => closing endObject (recordBody start (field depth) finish rest))
    (fun text => .error (wrongType expected text))

def field {β : Type} (old : Option β) (decoder : Decoder β) (depth : Nat) (store : β → σ) :
    Member σ :=
  match old with
  | some _ => .repeated
  | none => .reads fun text => (decoder depth text).map fun (b, rest) => (store b, rest)

end Decoder

def required {α : Type} (name : String) : Option α → Except Reason α
  | some a => .ok a
  | none => .error (.missingField name)

/-- Decodes the first value of a document; what comes after it is not looked at. -/
def decodeDocument {α : Type} (decoder : Decoder α) (document : Bytes) :
    Except DocumentError α :=
  match decoder depthLimit document with
  | .ok (a, _) => .ok a
  | .error fault => .error (fault.report document)

end CircuitForm.Json
