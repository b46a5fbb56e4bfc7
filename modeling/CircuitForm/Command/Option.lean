import CircuitForm.Json.Basic
import CircuitForm.Path.Parser

/-!
# Options

How arguments are split into options and their values. An option that takes any number of values
goes on until the next option; one that takes a single value may have it attached, as in
`--out=FILE` or `-oFILE`. The values of an option are judged when it is complete, which is at
the next option or at the end.
-/

namespace CircuitForm

inductive UsageError where
  | helpWanted
  | versionWanted
  | nothingGiven
  | noSubcommand
  | unknownSubcommand
  | unknownArgument
  | missingArgument
  | missingValue
  | invalidValue
  | repeatedOption
  | unneededValue
deriving DecidableEq, Repr

def UsageError.exitCode : UsageError → Nat
  | .helpWanted | .versionWanted => 0
  | _ => 2

def UsageError.message : UsageError → String
  | .helpWanted => "help"
  | .versionWanted => "version"
  | .nothingGiven => "no arguments given"
  | .noSubcommand => "a subcommand is required"
  | .unknownSubcommand => "unrecognized subcommand"
  | .unknownArgument => "unexpected argument"
  | .missingArgument => "a required argument was not provided"
  | .missingValue => "a value is required for an option"
  | .invalidValue => "invalid value for an option"
  | .repeatedOption => "an option cannot be used multiple times"
  | .unneededValue => "unexpected value for an option"

inductive Takes where
  | nothing
  | one
  | many
deriving DecidableEq, Repr

inductive Content where
  | text
  | file
  | path
deriving DecidableEq, Repr

structure OptionRule where
  name : String
  letter : Option Char
  takes : Takes
  content : Content
  /-- Whether a value may look like an option. -/
  anyValue : Bool
  /-- What the option asks for in place of the command. -/
  instead : Option UsageError
deriving DecidableEq, Repr

namespace OptionRule

def flag (name : String) (letter : Option Char) (instead : Option UsageError) : OptionRule :=
  ⟨name, letter, .nothing, .text, false, instead⟩

def one (name : String) (letter : Option Char) (content : Content) : OptionRule :=
  ⟨name, letter, .one, content, false, none⟩

def many (name : String) (letter : Option Char) : OptionRule :=
  ⟨name, letter, .many, .text, false, none⟩

/-- The name of a file must not be empty, and a path has to be one. -/
def judge (rule : OptionRule) (value : String) : Except UsageError Unit :=
  match rule.content with
  | .text => .ok ()
  | .file => if value.isEmpty then .error .missingValue else .ok ()
  | .path => if (Path.parse value).isOk then .ok () else .error .invalidValue

end OptionRule

inductive Shape where
  | close
  | long (name : String) (value : Option String)
  | short (letters : List Char)
  | plain
deriving DecidableEq, Repr

def Shape.ofText (argument : String) : Shape :=
  match argument.toList with
  | ['-', '-'] => .close
  | '-' :: '-' :: rest =>
    let name := String.ofList (rest.takeWhile (· ≠ '='))
    match rest.dropWhile (· ≠ '=') with
    | [] => .long name none
    | _ :: value => .long name (some (String.ofList value))
  | '-' :: c :: rest => .short (c :: rest)
  | _ => .plain

/-- The options read so far. While one is pending its values are not judged yet; while it is
awaiting values, arguments that are no options belong to it. After `--` there are no options. -/
structure OptionScan where
  given : Entries (List String)
  pending : Option (OptionRule × List String)
  awaiting : Bool
  closed : Bool

namespace OptionScan

def start : OptionScan :=
  ⟨[], none, false, false⟩

def store (scan : OptionScan) (rule : OptionRule) (values : List String) :
    Except UsageError OptionScan :=
  let before := scan.given.lookup rule.name
  if rule.takes ≠ .nothing ∧ values = [] then .error .missingValue
  else if rule.takes ≠ .many ∧ before.isSome then .error .repeatedOption
  else do
    values.forM rule.judge
    .ok { scan with given := scan.given.insert rule.name (before.getD [] ++ values) }

def settle (scan : OptionScan) : Except UsageError OptionScan :=
  match scan.pending with
  | none => .ok scan
  | some (rule, values) => { scan with pending := none, awaiting := false }.store rule values

def takeUp (scan : OptionScan) (rule : OptionRule) (attached : Option String) :
    Except UsageError OptionScan :=
  match rule.takes, attached with
  | .nothing, some _ => .error .unneededValue
  | .nothing, none => do
    let scan ← scan.settle
    match rule.instead with
    | some error => .error error
    | none => scan.store rule []
  | _, some value => do
    let scan ← scan.settle
    scan.store rule [value]
  | _, none => do
    let scan ← scan.settle
    .ok { scan with pending := some (rule, []), awaiting := true }

def takeUpLong (scan : OptionScan) (rules : List OptionRule) (name : String)
    (attached : Option String) : Except UsageError OptionScan :=
  match rules.find? (·.name == name) with
  | some rule => scan.takeUp rule attached
  | none => .error .unknownArgument

/-- What follows the letter of an option is its value, after an equals sign if there is one. -/
def attachedTo : List Char → Option String
  | [] => none
  | '=' :: value => some (String.ofList value)
  | value => some (String.ofList value)

def takeUpShort (rules : List OptionRule) : OptionScan → List Char →
    Except UsageError OptionScan
  | scan, [] => .ok scan
  | scan, letter :: rest =>
    match rules.find? (·.letter == some letter) with
    | none => .error .unknownArgument
    | some rule =>
      if rule.takes = .nothing then do
        let scan ← scan.takeUp rule none
        takeUpShort rules scan rest
      else
        scan.takeUp rule (attachedTo rest)

def takesAnything (scan : OptionScan) : Bool :=
  scan.awaiting && (scan.pending.map (·.1.anyValue)).getD false

def addValue (scan : OptionScan) (value : String) : OptionScan :=
  match scan.pending with
  | some (rule, values) =>
    { scan with
      pending := some (rule, values ++ [value])
      awaiting := decide (rule.takes = .many) }
  | none => scan

def stray (scan : OptionScan) (subcommands : List String) (argument : String) : UsageError :=
  if subcommands = [] ∨ (scan.closed ∧ argument ∈ subcommands) then .unknownArgument
  else .unknownSubcommand

/-- Reads arguments to the end or to a subcommand, which is left with what follows it. -/
def run (rules : List OptionRule) (subcommands : List String) : OptionScan → List String →
    Except UsageError (OptionScan × List String)
  | scan, [] => .ok (scan, [])
  | scan, argument :: rest =>
    if scan.closed then .error (scan.stray subcommands argument)
    else if !scan.awaiting ∧ argument ∈ subcommands then .ok (scan, argument :: rest)
    else if scan.takesAnything then run rules subcommands (scan.addValue argument) rest
    else
      match Shape.ofText argument with
      | .close => run rules subcommands { scan with closed := true } rest
      | .long name attached => do
        let scan ← scan.takeUpLong rules name attached
        run rules subcommands scan rest
      | .short letters => do
        let scan ← takeUpShort rules scan letters
        run rules subcommands scan rest
      | .plain =>
        if scan.awaiting then run rules subcommands (scan.addValue argument) rest
        else .error (scan.stray subcommands argument)

end OptionScan

end CircuitForm
