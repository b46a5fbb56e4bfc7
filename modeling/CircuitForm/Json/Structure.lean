import CircuitForm.Json.Scan

/-!
# Brackets, commas and colons

How a reader moves through a list or an object, whatever it makes of the values in it. The
loops take the reader of one element or member; their fuel is the length of the text, since
every round takes at least one byte.
-/

namespace CircuitForm.Json

def within {α : Type} (step : Step) (result : Except Fault α) : Except Fault α :=
  result.mapError (Fault.under step)

def Place.unread : Place → Bytes
  | .before unread => unread
  | .upon unread => unread
  | .inner _ => []
  | .unsettled unread => unread

/-- Whether another element follows, and the text at that element or at the closing bracket. -/
def nextElement (first : Bool) (text : Bytes) : Except Fault (Bool × Bytes) :=
  match Scan.skipBlank text with
  | [] => .error (.ahead (.endIn .list) [])
  | b :: rest =>
    if b = Ascii.closeBracket then .ok (false, b :: rest)
    else if first then .ok (true, b :: rest)
    else if b = Ascii.comma then
      match Scan.skipBlank rest with
      | [] => .error (.ahead (.endIn .value) [])
      | c :: unread =>
        if c = Ascii.closeBracket then .error (.ahead .trailingComma (c :: unread))
        else .ok (true, c :: unread)
    else
      .error (.ahead .noListSeparator (b :: rest))

def key : Bytes → Except Fault (Option String × Bytes)
  | [] => .error (.ahead (.endIn .value) [])
  | b :: rest =>
    if b = Ascii.quote then (Scan.string rest).map fun (s, rest) => (some s, rest)
    else .error (.ahead .keyNotString (b :: rest))

def nextKey (first : Bool) (text : Bytes) : Except Fault (Option String × Bytes) :=
  match Scan.skipBlank text with
  | [] => .error (.ahead (.endIn .object) [])
  | b :: rest =>
    if b = Ascii.closeBrace then .ok (none, b :: rest)
    else if first then key (b :: rest)
    else if b = Ascii.comma then
      match Scan.skipBlank rest with
      | [] => .error (.ahead (.endIn .value) [])
      | c :: unread =>
        if c = Ascii.closeBrace then .error (.ahead .trailingComma (c :: unread))
        else key (c :: unread)
    else
      .error (.ahead .noObjectSeparator (b :: rest))

def colon (text : Bytes) : Except Fault Bytes :=
  match Scan.skipBlank text with
  | [] => .error (.ahead (.endIn .object) [])
  | b :: rest =>
    if b = Ascii.colon then .ok rest else .error (.ahead .noColon (b :: rest))

def endList (text : Bytes) : Except Fault Bytes :=
  match Scan.skipBlank text with
  | [] => .error (.ahead (.endIn .list) [])
  | b :: rest =>
    if b = Ascii.closeBracket then .ok rest
    else if b = Ascii.comma then
      match Scan.skipBlank rest with
      | [] => .error (.ahead .trailingCharacters [])
      | c :: unread =>
        .error (.ahead (if c = Ascii.closeBracket then .trailingComma else .trailingCharacters)
          (c :: unread))
    else
      .error (.ahead .trailingCharacters (b :: rest))

def endObject (text : Bytes) : Except Fault Bytes :=
  match Scan.skipBlank text with
  | [] => .error (.ahead (.endIn .object) [])
  | b :: rest =>
    if b = Ascii.closeBrace then .ok rest
    else if b = Ascii.comma then .error (.ahead .trailingComma (b :: rest))
    else .error (.ahead .trailingCharacters (b :: rest))

/-- A fault without a place gets the one that the reader comes to by closing the brackets. -/
def Fault.settle (close : Bytes → Except Fault Bytes) (fault : Fault) : Fault :=
  match fault.place with
  | .unsettled unread =>
    match close unread with
    | .ok rest => { fault with place := .before rest }
    | .error stop => { fault with place := .before stop.place.unread }
  | _ => fault

def closing {α : Type} (close : Bytes → Except Fault Bytes) :
    Except Fault (α × Bytes) → Except Fault (α × Bytes)
  | .ok (a, rest) => (close rest).map fun rest => (a, rest)
  | .error fault => .error (fault.settle close)

def elements {α : Type} (item : Bytes → Except Fault (α × Bytes)) :
    (fuel index : Nat) → Bytes → Except Fault (List α × Bytes)
  | 0, _, text => .error (.ahead (.endIn .list) text)
  | fuel + 1, index, text => do
    let (more, rest) ← nextElement (index == 0) text
    if more then
      let (x, rest) ← within (.index index) (item rest)
      let (xs, rest) ← elements item fuel (index + 1) rest
      .ok (x :: xs, rest)
    else
      .ok ([], rest)

/-- Reads the members of an object into a state; `member` starts behind the key. -/
def members {σ : Type} (member : σ → String → Bytes → Except Fault (σ × Bytes)) :
    (fuel : Nat) → (first : Bool) → σ → Bytes → Except Fault (σ × Bytes)
  | 0, _, _, text => .error (.ahead (.endIn .object) text)
  | fuel + 1, first, state, text => do
    let (next, rest) ← within .unknown (nextKey first text)
    match next with
    | none => .ok (state, rest)
    | some name =>
      let (state, rest) ← member state name rest
      members member fuel false state rest

end CircuitForm.Json
