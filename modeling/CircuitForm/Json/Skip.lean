import CircuitForm.Json.Structure

/-!
# Skipping values

The value of a field that nobody asks for is passed over, not read. It has to be JSON in form,
but it may nest to any depth, and its strings may hold surrogate halves and bytes that are not
UTF-8. The open brackets are a list of what still has to follow.
-/

namespace CircuitForm.Json.Skip

/-- What has to follow: a value, or the rest of a list or an object after one of its values. -/
inductive Pending where
  | value
  | listRest
  | objectRest
deriving DecidableEq, Repr

def string : (fuel : Nat) → Bytes → Except Fault Bytes
  | 0, _ => .error (.behind (.endIn .string) [])
  | fuel + 1, text =>
    match text.dropWhile Scan.isPlain with
    | [] => .error (.behind (.endIn .string) [])
    | b :: rest =>
      if b = Ascii.quote then .ok rest
      else if b = Ascii.backslash then
        match rest with
        | [] => .error (.behind (.endIn .string) [])
        | c :: rest =>
          if (Scan.escapedByte? c).isSome then string fuel rest
          else if c = Ascii.ofChar 'u' then do
            let (_, rest) ← Scan.fourHex rest
            string fuel rest
          else
            .error (.behind .badEscape rest)
      else
        .error (.behind .controlCharacter (b :: rest))

def scalar : Bytes → Except Fault Bytes
  | [] => .error (.ahead (.endIn .value) [])
  | b :: rest =>
    if b = Ascii.ofChar 'n' then Scan.word (Bytes.ofString "ull") rest
    else if b = Ascii.ofChar 't' then Scan.word (Bytes.ofString "rue") rest
    else if b = Ascii.ofChar 'f' then Scan.word (Bytes.ofString "alse") rest
    else if b = Ascii.minus || Scan.isDigit b then
      (Scan.numeral .badNumber (b :: rest)).map Prod.snd
    else if b = Ascii.quote then string (rest.length + 1) rest
    else .error (.ahead .noValue (b :: rest))

def key (text : Bytes) : Except Fault Bytes :=
  match Scan.skipBlank text with
  | [] => .error (.ahead (.endIn .object) [])
  | b :: rest =>
    if b = Ascii.quote then do
      let rest ← string (rest.length + 1) rest
      colon rest
    else
      .error (.ahead .keyNotString (b :: rest))

/-- One round: takes at least one byte and says what has to follow then. -/
def step (pending : Pending) (later : List Pending) (text : Bytes) :
    Except Fault (List Pending × Bytes) :=
  match pending, Scan.skipBlank text with
  | .value, [] => .error (.ahead (.endIn .value) [])
  | .listRest, [] => .error (.ahead (.endIn .list) [])
  | .objectRest, [] => .error (.ahead (.endIn .object) [])
  | .value, b :: rest =>
    if b = Ascii.openBracket then
      match Scan.skipBlank rest with
      | [] => .error (.ahead (.endIn .list) [])
      | c :: unread =>
        if c = Ascii.closeBracket then .ok (later, unread)
        else .ok (.value :: .listRest :: later, c :: unread)
    else if b = Ascii.openBrace then
      match Scan.skipBlank rest with
      | [] => .error (.ahead (.endIn .object) [])
      | c :: unread =>
        if c = Ascii.closeBrace then .ok (later, unread)
        else (key (c :: unread)).map fun rest => (.value :: .objectRest :: later, rest)
    else
      (scalar (b :: rest)).map fun rest => (later, rest)
  | .listRest, b :: rest =>
    if b = Ascii.comma then .ok (.value :: .listRest :: later, rest)
    else if b = Ascii.closeBracket then .ok (later, rest)
    else .error (.ahead .noListSeparator (b :: rest))
  | .objectRest, b :: rest =>
    if b = Ascii.comma then (key rest).map fun rest => (.value :: .objectRest :: later, rest)
    else if b = Ascii.closeBrace then .ok (later, rest)
    else .error (.ahead .noObjectSeparator (b :: rest))

def run : (fuel : Nat) → List Pending → Bytes → Except Fault Bytes
  | _, [], text => .ok text
  | 0, _ :: _, text => .error (.ahead (.endIn .value) text)
  | fuel + 1, pending :: later, text => do
    let (pending, rest) ← step pending later text
    run fuel pending rest

def value (text : Bytes) : Except Fault Bytes :=
  run (text.length + 1) [.value] text

end CircuitForm.Json.Skip
