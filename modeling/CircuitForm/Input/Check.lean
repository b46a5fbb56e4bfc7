import CircuitForm.Input.Literal

/-!
# Checking literals against descriptors

A literal is walked together with a descriptor, and the errors of all its nodes are collected
in order. `coerce` takes the errors found so far and adds to them; it gives a tree when the
literal fits and none when it has added an error. The tree has the order of the descriptor,
whatever the order of the literal.
-/

namespace CircuitForm

open Literal (booleanOfText?)

def expectedName (type : Descriptor) : String :=
  match type with
  | .field | .integer _ _ => "a number (" ++ type.title ++ ")"
  | .boolean => "a boolean"
  | .string _ => "a string (" ++ type.title ++ ")"
  | .array _ _ | .tuple _ => "an array (" ++ type.title ++ ")"
  | .struct _ _ => "an object (" ++ type.title ++ ")"

def foundName : Literal → String
  | .number n => "number " ++ n.text
  | literal => literal.kindName

def mismatch (path : Path) (expected : String) (literal : Literal) : InputError :=
  ⟨path, .mismatch expected (foundName literal)⟩

/-- The error of an object whose keys are not the declared names, in whatever order. -/
def fieldSetError? (path : Path) (declared : List String) (entries : Entries Literal) :
    Option InputError :=
  let missing := declared.filter fun name => !entries.names.contains name
  let unexpected := entries.names.filter fun name => !declared.contains name
  if missing.isEmpty && unexpected.isEmpty then none
  else some ⟨path, .wrongFields missing unexpected⟩

/-- The truth value that a literal stands for where a boolean is declared. A number is one only if
it is spelled as the natural number 0 or 1. -/
def booleanOf? : Literal → Option Bool
  | .boolean b => some b
  | .number n =>
    match n.natural? with
    | some 0 => some false
    | some 1 => some true
    | _ => none
  | .string s => booleanOfText? s
  | _ => none

def scalarOf (type : Descriptor) (literal : Literal) : Except InputFault InputTree :=
  match type, literal with
  | .field, .number n => .ok (.number n)
  | .integer sign _, .number n =>
    if sign = .unsigned ∧ n.isNegative then .error (.negative n) else .ok (.number n)
  | .boolean, literal =>
    match booleanOf? literal with
    | some b => .ok (.boolean b)
    | none => .error (.mismatch "a boolean" (foundName literal))
  | .string length, .string s =>
    if s.length = length then .ok (.string s) else .error (.wrongLength length s.length)
  | type, literal => .error (.mismatch (expectedName type) (foundName literal))

/-- Coerces elements one by one, from an index on. All are looked at, also after an error. -/
def coerceEach (coerceItem : Literal → Path → List InputError → Option InputTree × List InputError)
    (path : Path) : (index : Nat) → List Literal → List InputError →
    Option (List InputTree) × List InputError
  | _, [], errors => (some [], errors)
  | index, item :: rest, errors =>
    let (first, errors) := coerceItem item (path.child (.index index)) errors
    let (more, errors) := coerceEach coerceItem path (index + 1) rest errors
    (do some ((← first) :: (← more)), errors)

mutual

def coerce : Descriptor → Literal → Path → List InputError → Option InputTree × List InputError
  | .array length element, .array items, path, errors =>
    if items.length = length then
      let (trees, errors) := coerceEach (coerce element) path 0 items errors
      (trees.map .list, errors)
    else
      (none, errors ++ [⟨path, .wrongLength length items.length⟩])
  | .tuple elements, .array items, path, errors =>
    if items.length = elements.length then
      let (trees, errors) := coerceElements elements path 0 items errors
      (trees.map .list, errors)
    else
      (none, errors ++ [⟨path, .wrongLength elements.length items.length⟩])
  | .struct _ fields, .object entries, path, errors =>
    match fieldSetError? path (fields.map Prod.fst) entries with
    | some error => (none, errors ++ [error])
    | none =>
      let (trees, errors) := coerceFields fields entries path [] errors
      (trees.map .struct, errors)
  | type, literal, path, errors =>
    match scalarOf type literal with
    | .ok tree => (some tree, errors)
    | .error fault => (none, errors ++ [⟨path, fault⟩])

def coerceElements : List Descriptor → Path → (index : Nat) → List Literal → List InputError →
    Option (List InputTree) × List InputError
  | type :: types, path, index, item :: rest, errors =>
    let (first, errors) := coerce type item (path.child (.index index)) errors
    let (more, errors) := coerceElements types path (index + 1) rest errors
    (do some ((← first) :: (← more)), errors)
  | _, _, _, _, errors => (some [], errors)

def coerceFields : List (String × Descriptor) → Entries Literal → Path → Entries InputTree →
    List InputError → Option (Entries InputTree) × List InputError
  | [], _, _, built, errors => (some built, errors)
  | (name, type) :: rest, entries, path, built, errors =>
    match entries.lookup name with
    | none => (none, (coerceFields rest entries path built errors).2)
    | some literal =>
      match coerce type literal (path.child (.key name)) errors with
      | (some tree, errors) => coerceFields rest entries path (built.insert name tree) errors
      | (none, errors) => (none, (coerceFields rest entries path built errors).2)

end

def typecheck (type : Descriptor) (literal : Literal) : Except (List InputError) InputTree :=
  match coerce type literal [] [] with
  | (some tree, []) => .ok tree
  | (_, errors) => .error errors

/-- The first error of a refusal. There is always one, so the last case does not arise. -/
def firstError (result : Except (List InputError) InputTree) : Except InputError InputTree :=
  match result with
  | .ok tree => .ok tree
  | .error (error :: _) => .error error
  | .error [] => .error ⟨[], .mismatch "a value" "nothing"⟩

def checkAll (type : Descriptor) (raw : String) : Except (List InputError) InputTree :=
  match Literal.decode type raw with
  | .ok literal => typecheck type literal
  | .error error => .error [error]

def check (type : Descriptor) (raw : String) : Except InputError InputTree :=
  firstError (checkAll type raw)

def treeErrors (type : Descriptor) (tree : InputTree) : List InputError :=
  match typecheck type (.ofTree tree) with
  | .ok _ => []
  | .error errors => errors

/-- Whether an input is refused. A tree, if there is one, is checked in place of the text. -/
def isRefused (type : Descriptor) (raw : String) (existing : Option InputTree) : Bool :=
  match existing with
  | some tree => !(typecheck type (.ofTree tree)).isOk
  | none => !(check type raw).isOk

def coerceParameters : List Parameter → Entries Literal → Inputs → List InputError →
    Inputs × List InputError
  | [], _, built, errors => (built, errors)
  | parameter :: rest, entries, built, errors =>
    match entries.lookup parameter.name with
    | none => coerceParameters rest entries built errors
    | some literal =>
      match coerce parameter.type literal [.key parameter.name] errors with
      | (some tree, errors) =>
        coerceParameters rest entries (built.insert parameter.name tree) errors
      | (none, errors) => coerceParameters rest entries built errors

/-- Checks a whole document, an object with one member for each parameter. -/
def checkInputs (parameters : List Parameter) (document : Json) :
    Except (List InputError) Inputs :=
  match Literal.ofJson document with
  | .error error => .error [error]
  | .ok (.object entries) =>
    match fieldSetError? [] (parameters.map Parameter.name) entries with
    | some error => .error [error]
    | none =>
      match coerceParameters parameters entries [] [] with
      | (inputs, []) => .ok inputs
      | (_, errors) => .error errors
  | .ok literal => .error [mismatch [] "an object of parameters" literal]

end CircuitForm
