import CircuitForm.Descriptor.Basic
import CircuitForm.Json.Decoder

/-!
# Decoding descriptors

The object of a descriptor is read verbatim first, since its `kind` may come anywhere in it, and
its other members are looked at afterwards. A fault found then has no position of its own; it
is reported where the outermost descriptor ends. A descriptor may also be written as a row,
its kind first. In what was read verbatim, a number that is no integer of 64 bits counts as a
map.
-/

namespace CircuitForm.Descriptor

open Json (Reason Found Fault Step Decoder within)

inductive Kind where
  | field
  | boolean
  | string
  | integer
  | array
  | tuple
  | struct
deriving DecidableEq, Repr

def kinds : List (String × Kind) :=
  [("field", .field), ("boolean", .boolean), ("string", .string), ("integer", .integer),
    ("array", .array), ("tuple", .tuple), ("struct", .struct)]

def signs : List (String × Sign) :=
  [("signed", .signed), ("unsigned", .unsigned)]

def found : Json → Found
  | .number n =>
    match n.integer? with
    | some i => .integer i
    | none => .map
  | other => .ofJson other

/-- The members of a map. A number that is no integer is a map from the reserved key. -/
def membersOf? : Json → Option (List (String × Json))
  | .object members => some members
  | .number n =>
    match n.integer? with
    | some _ => none
    | none => some [(Json.reservedKey, .string n.text)]
  | _ => none

def stringOf : Json → Except Reason String
  | .string s => .ok s
  | other => .error (.wrongType (found other) "a string")

/-- An unsigned integer below a bound, whose type has the given name. -/
def naturalOf (typeName : String) (bound : Nat) (json : Json) : Except Reason Nat :=
  match found json with
  | .integer i =>
    if 0 ≤ i ∧ i < bound then .ok i.toNat else .error (.wrongValue (.integer i) typeName)
  | other => .error (.wrongType other typeName)

def lengthOf : Json → Except Reason Nat :=
  naturalOf "usize" Word.bound64

def widthOf : Json → Except Reason Nat :=
  naturalOf "u32" Word.bound32

def namedOf {α : Type} (known : List (String × α)) (name : String) : Except Reason α :=
  match known.lookup name with
  | some a => .ok a
  | none => .error (.unknownVariant name (known.map Prod.fst))

def kindOf (json : Json) : Except Reason Kind :=
  match json, found json with
  | .string name, _ => namedOf kinds name
  | _, .integer i =>
    if 0 ≤ i then
      match kinds[i.toNat]? with
      | some (_, kind) => .ok kind
      | none => .error (.wrongValue (.integer i) "variant index 0 <= i < 7")
    else
      .error (.wrongType (.integer i) "variant identifier")
  | _, other => .error (.wrongType other "variant identifier")

def unitOf (json : Json) : Except Reason Unit :=
  match json with
  | .null => .ok ()
  | .object [] => .ok ()
  | other => .error (.wrongType (found other) "unit")

/-- A sign by its name, or as a map from its name to nothing. -/
def signOf (json : Json) : Except Reason Sign :=
  match json, membersOf? json with
  | .string name, _ => namedOf signs name
  | _, some [(name, payload)] => do
    let sign ← namedOf signs name
    unitOf payload
    .ok sign
  | _, some _ => .error (.wrongValue .map "map with a single key")
  | other, none => .error (.wrongType (found other) "string or map")

def kindIn (members : List (String × Json)) : Except Reason Kind := do
  let seen ← members.foldlM (fun seen (name, json) =>
    if name = "kind" then
      match seen with
      | some _ => .error (.repeatedField "kind")
      | none => (kindOf json).map some
    else
      .ok seen) none
  Json.required "kind" seen

structure Slots where
  length : Option Nat := none
  sign : Option Sign := none
  width : Option Nat := none
  element : Option Descriptor := none
  elements : Option (List Descriptor) := none
  path : Option String := none
  fields : Option (List (String × Descriptor)) := none

def finish (kind : Kind) (slots : Slots) : Except Reason Descriptor :=
  match kind with
  | .field => .ok .field
  | .boolean => .ok .boolean
  | .string => (Json.required "length" slots.length).map .string
  | .integer => do
    let sign ← Json.required "sign" slots.sign
    let width ← Json.required "width" slots.width
    .ok (.integer sign width)
  | .array => do
    let length ← Json.required "length" slots.length
    let element ← Json.required "type" slots.element
    .ok (.array length element)
  | .tuple => (Json.required "fields" slots.elements).map .tuple
  | .struct => (Json.required "fields" slots.fields).map (.struct (slots.path.getD ""))

/-- The value of a member, unless an earlier member has the name. -/
def fresh {α : Type} (name : String) (old : Option α) (read : Except Reason α) :
    Except Reason (Option α) :=
  match old with
  | some _ => .error (.repeatedField name)
  | none => read.map some

def rowName (variant : String) (count : Nat) : String :=
  "struct variant AbiType::" ++ variant ++ " with " ++ toString count ++
    (if count = 1 then " element" else " elements")

def endRow (count : Nat) (rest : List Json) : Except Reason Unit :=
  if rest.isEmpty then .ok ()
  else
    .error (.wrongLength (count + rest.length)
      (toString count ++ (if count = 1 then " element" else " elements") ++ " in sequence"))

def taggedName : String := "internally tagged enum AbiType"

mutual

def ofVerbatim : Json → Except Reason Descriptor
  | .object members => do
    let kind ← kindIn members
    let slots ← slotsOf kind {} members
    finish kind slots
  | .array (tag :: items) => do
    let kind ← kindOf tag
    ofRow kind items
  | .array [] => .error (.missingField "kind")
  | .number n =>
    match n.integer? with
    | some i => .error (.wrongType (.integer i) taggedName)
    | none => .error (.missingField "kind")
  | .null => .error (.wrongType .null taggedName)
  | .bool b => .error (.wrongType (.boolean b) taggedName)
  | .string s => .error (.wrongType (.string s) taggedName)

def slotsOf (kind : Kind) (slots : Slots) : List (String × Json) → Except Reason Slots
  | [] => .ok slots
  | (name, json) :: rest => do
    let slots ←
      match kind, name with
      | .string, "length" | .array, "length" => do
        let length ← fresh name slots.length (lengthOf json)
        .ok { slots with length }
      | .integer, "sign" => do
        let sign ← fresh name slots.sign (signOf json)
        .ok { slots with sign }
      | .integer, "width" => do
        let width ← fresh name slots.width (widthOf json)
        .ok { slots with width }
      | .array, "type" => do
        let element ← fresh name slots.element (ofVerbatim json)
        .ok { slots with element }
      | .tuple, "fields" => do
        let elements ← fresh name slots.elements (elementsOf json)
        .ok { slots with elements }
      | .struct, "path" => do
        let path ← fresh name slots.path (stringOf json)
        .ok { slots with path }
      | .struct, "fields" => do
        let fields ← fresh name slots.fields (fieldsOf json)
        .ok { slots with fields }
      | _, _ => .ok slots
    slotsOf kind slots rest

def ofRow (kind : Kind) : List Json → Except Reason Descriptor
  | [] =>
    match kind with
    | .field => .ok .field
    | .boolean => .ok .boolean
    | .string => .error (.wrongLength 0 (rowName "String" 1))
    | .integer => .error (.wrongLength 0 (rowName "Integer" 2))
    | .array => .error (.wrongLength 0 (rowName "Array" 2))
    | .tuple => .error (.wrongLength 0 (rowName "Tuple" 1))
    | .struct => .error (.wrongLength 1 (rowName "Struct" 2))
  | first :: rest =>
    match kind, rest with
    | .field, _ => do
      endRow 0 (first :: rest)
      .ok .field
    | .boolean, _ => do
      endRow 0 (first :: rest)
      .ok .boolean
    | .string, _ => do
      let length ← lengthOf first
      endRow 1 rest
      .ok (.string length)
    | .tuple, _ => do
      let elements ← elementsOf first
      endRow 1 rest
      .ok (.tuple elements)
    | .integer, [] => do
      let _ ← signOf first
      .error (.wrongLength 1 (rowName "Integer" 2))
    | .integer, second :: rest => do
      let sign ← signOf first
      let width ← widthOf second
      endRow 2 rest
      .ok (.integer sign width)
    | .array, [] => do
      let _ ← lengthOf first
      .error (.wrongLength 1 (rowName "Array" 2))
    | .array, second :: rest => do
      let length ← lengthOf first
      let element ← ofVerbatim second
      endRow 2 rest
      .ok (.array length element)
    | .struct, [] => do
      let _ ← stringOf first
      .error (.wrongLength 1 (rowName "Struct" 2))
    | .struct, second :: rest => do
      let path ← stringOf first
      let fields ← fieldsOf second
      endRow 2 rest
      .ok (.struct path fields)

def elementsOf : Json → Except Reason (List Descriptor)
  | .array items => listOf items
  | other => .error (.wrongType (found other) "a sequence")

def listOf : List Json → Except Reason (List Descriptor)
  | [] => .ok []
  | item :: rest => do
    let type ← ofVerbatim item
    let types ← listOf rest
    .ok (type :: types)

def fieldsOf : Json → Except Reason (List (String × Descriptor))
  | .array items => fieldListOf items
  | other => .error (.wrongType (found other) "a sequence")

def fieldListOf : List Json → Except Reason (List (String × Descriptor))
  | [] => .ok []
  | item :: rest => do
    let field ← fieldOf item
    let fields ← fieldListOf rest
    .ok (field :: fields)

def fieldOf : Json → Except Reason (String × Descriptor)
  | .object members => fieldSlots none none members
  | .array [] => .error (.wrongLength 0 "struct AbiField with 2 elements")
  | .array [name] => do
    let _ ← stringOf name
    .error (.wrongLength 1 "struct AbiField with 2 elements")
  | .array (name :: type :: rest) => do
    let name ← stringOf name
    let type ← ofVerbatim type
    endRow 2 rest
    .ok (name, type)
  | .number n =>
    match n.integer? with
    | some i => .error (.wrongType (.integer i) "struct AbiField")
    | none => .error (.missingField "name")
  | .null => .error (.wrongType .null "struct AbiField")
  | .bool b => .error (.wrongType (.boolean b) "struct AbiField")
  | .string s => .error (.wrongType (.string s) "struct AbiField")

def fieldSlots (name : Option String) (type : Option Descriptor) :
    List (String × Json) → Except Reason (String × Descriptor)
  | [] => do
    let name ← Json.required "name" name
    let type ← Json.required "type" type
    .ok (name, type)
  | (key, json) :: rest => do
    if key = "name" then
      let name ← fresh key name (stringOf json)
      fieldSlots name type rest
    else if key = "type" then
      let type ← fresh key type (ofVerbatim json)
      fieldSlots name type rest
    else
      fieldSlots name type rest

end

def kind (text : Bytes) : Except Fault (Kind × Bytes) :=
  Decoder.named kinds text

/-- One member of a descriptor's object: its kind is looked at, all else is kept verbatim. -/
def taggedMember (depth : Nat) (state : Option Kind × List (String × Json)) (name : String)
    (text : Bytes) : Except Fault ((Option Kind × List (String × Json)) × Bytes) :=
  if name = "kind" then
    match state.1 with
    | some _ => .error (.unsettled (.repeatedField "kind") text)
    | none => do
      let rest ← Json.colon text
      let (kind, rest) ← within (.key name) (kind rest)
      .ok ((some kind, state.2), rest)
  else do
    let rest ← Json.colon text
    let (json, rest) ← within (.key name) (Json.value .verbatim depth rest)
    .ok ((state.1, state.2 ++ [(name, json)]), rest)

def taggedObject (depth : Nat) (text : Bytes) :
    Except Fault (Except Reason Descriptor × Bytes) := do
  let ((kind, members), rest) ←
    Json.members (taggedMember depth) (text.length + 1) true (none, []) text
  match kind with
  | none => .error (.unsettled (.missingField "kind") rest)
  | some kind => .ok (slotsOf kind {} members >>= finish kind, rest)

def taggedRow (depth : Nat) (text : Bytes) :
    Except Fault (Except Reason Descriptor × Bytes) := do
  let (kind, rest) ← Decoder.rowElement 0 kind text
  match kind with
  | none => .error (.unsettled (.missingField "kind") rest)
  | some kind =>
    let (items, rest) ←
      Json.elements (Json.value .verbatim depth) (rest.length + 1) 1 rest
    .ok (ofRow kind items, rest)

/-- A number that is no integer passes for a map here too, and so for one without a kind. -/
def notTagged (text : Bytes) : Fault :=
  match Json.scalar text with
  | .ok (.number n, rest) =>
    match n.integer? with
    | some i => .settled (.wrongType (.integer i) taggedName) rest
    | none => .settled (.missingField "kind") rest
  | _ => Json.wrongType taggedName text

def decoder : Decoder Descriptor :=
  fun depth text => do
    let (descriptor, rest) ← Decoder.brackets
      (fun depth rest => Json.closing Json.endList (taggedRow depth rest))
      (fun depth rest => Json.closing Json.endObject (taggedObject depth rest))
      (fun text => .error (notTagged text)) depth text
    match descriptor with
    | .ok descriptor => .ok (descriptor, rest)
    | .error reason => .error (.unsettled reason rest)

end Descriptor

namespace Parameter

open Json (Reason Fault Decoder Member)

def visibilities : List (String × Visibility) :=
  [("public", .pub), ("private", .priv), ("databus", .databus)]

structure Slots where
  name : Option String := none
  type : Option Descriptor := none
  visibility : Option (Option Visibility) := none

def visibilityDecoder : Decoder (Option Visibility) :=
  Decoder.optional (Decoder.choice visibilities Visibility.name)

def member (depth : Nat) (slots : Slots) (name : String) : Member Slots :=
  match name with
  | "name" =>
    Decoder.field slots.name Decoder.string depth fun name => { slots with name := some name }
  | "type" =>
    Decoder.field slots.type Descriptor.decoder depth fun type => { slots with type := some type }
  | "visibility" =>
    Decoder.field slots.visibility visibilityDecoder depth fun visibility =>
      { slots with visibility := some visibility }
  | _ => .unknown

def finish (slots : Slots) : Except Reason Parameter := do
  let name ← Json.required "name" slots.name
  let type ← Json.required "type" slots.type
  .ok ⟨name, type, slots.visibility.getD none⟩

def row : Decoder Parameter :=
  fun depth text => do
    let expected := "struct AbiParameter with 3 elements"
    let (name, rest) ← Decoder.rowField expected 0 (Decoder.string depth) text
    let (type, rest) ← Decoder.rowField expected 1 (Descriptor.decoder depth) rest
    let (visibility, rest) ← Decoder.rowFieldD none 2 (visibilityDecoder depth) rest
    .ok (⟨name, type, visibility⟩, rest)

def decoder : Decoder Parameter :=
  Decoder.record "struct AbiParameter" {} member finish row

end Parameter

end CircuitForm
