import CircuitForm.Command.Invocation
import CircuitForm.Command.Style
import CircuitForm.Descriptor.Nested
import CircuitForm.Filter.Eval
import CircuitForm.Json.Pointer
import CircuitForm.Program.Loader
import CircuitForm.Session.Basic

/-!
# Running commands

What a command reads from a disk, writes to it and prints. A command either fails with a message,
before it has printed anything, or reports what it found.
-/

namespace CircuitForm

structure Report where
  output : String
  errors : String
  valid : Bool
deriving DecidableEq, Repr

def Report.ofOutput (output : String) : Report :=
  ⟨output, "", true⟩

def Report.exitCode (report : Report) : Nat :=
  if report.valid then 0 else 1

def Report.failureCode : Nat := 2

def joinLines (all : List String) : String :=
  String.join (all.map (· ++ "\n"))

/-- An error followed by what lies behind it, also where the error has said that already. -/
def LoadError.fullMessage (e : LoadError) : String :=
  match e.cause? with
  | none => e.message
  | some cause => e.message ++ ": " ++ cause

namespace Command

variable {m : Type → Type} [Monad m] [Disk m]

def orFail {ε α : Type} (message : ε → String) (action : m (Except ε α)) : ExceptT String m α :=
  ExceptT.mk do
    let result ← action
    pure (result.mapError message)

def noPrograms : String := "registry contains no programs"

def loadRegistry (sources : Sources) : ExceptT String m Registry := do
  let registry ← match sources.artifacts, sources.registry with
    | _ :: _, _ => orFail LoadError.fullMessage (Registry.loadArtifacts sources.artifacts)
    | [], some path => orFail LoadError.fullMessage (Registry.load path)
    | [], none =>
      throw "no programs given: pass --registry, --artifacts or set CIRCUIT_INPUTS_REGISTRY"
  if registry.isEmpty then throw noPrograms
  pure registry

def pick (registry : Registry) : Option String → Except String (String × Program)
  | none =>
    match registry.head? with
    | some entry => .ok entry
    | none => .error noPrograms
  | some name =>
    match registry.lookup name with
    | some program => .ok (name, program)
    | none =>
      .error ("unknown program `" ++ name ++ "` (known: " ++
        ", ".intercalate registry.names ++ ")")

def programLine (colour : Bool) (name : String) (program : Program) : String :=
  Style.bold.paint colour name ++ "\t" ++ toString program.parameters.length ++
    " parameter(s)\thash " ++ program.hashText.getD "-" ++
    "\tnoir " ++ program.version.getD "-"

def parameterLine (colour : Bool) (parameter : Parameter) : String :=
  let visibility := match parameter.visibility with
    | none => ""
    | some visibility => " (" ++ visibility.name ++ ")"
  "  " ++ Style.cyan.paint colour parameter.name ++ ": " ++ parameter.type.title ++
    Style.dimmed.paint colour visibility

def leafLines (parameter : Parameter) : List String :=
  (parameter.type.nested [.key parameter.name]).map fun (path, type) =>
    "    " ++ path.display ++ ": " ++ type.title

def describeLines (colour leaves : Bool) (name : String) (program : Program) : List String :=
  Style.bold.paint colour name :: program.parameters.flatMap fun parameter =>
    parameterLine colour parameter :: if leaves then leafLines parameter else []

def readInputs (path : String) : ExceptT String m Inputs := do
  let document ← orFail (fun fault : DiskFault =>
    "failed to read " ++ path ++ ": " ++ fault.message) (Disk.read path)
  match Json.decodeDocument Inputs.decoder document with
  | .ok inputs => pure inputs
  | .error error => throw ("failed to parse inputs file " ++ path ++ ": " ++ error.text)

def writeInputs (out : Option String) (inputs : Inputs) : ExceptT String m Report := do
  let text := (Inputs.toJson inputs).pretty
  match out with
  | none => pure (.ofOutput (text ++ "\n"))
  | some path =>
    match Disk.parent? path with
    | some parent => orFail DiskFault.message (Disk.makeDirectories parent)
    | none => pure ()
    orFail (fun fault : DiskFault => "failed to write " ++ path ++ ": " ++ fault.message)
      (Disk.write path (Bytes.ofString text))
    pure (.ofOutput "")

def openSession (registry : Registry) (program file : Option String) :
    ExceptT String m Session := do
  let (name, _) ← pick registry program
  match Session.start registry name, file with
  | .error error, _ => throw error.message
  | .ok session, none => pure session
  | .ok session, some file => do
    let previous ← readInputs file
    pure (session.seed previous)

def documentsIn (pointer filter : Option String) (path : String) :
    ExceptT String m (List (String × Json)) := do
  let unreadable := fun text => "failed to read source file " ++ path ++ ": " ++ text
  let bytes ← orFail (fun fault : DiskFault => unreadable fault.message) (Disk.read path)
  if (Bytes.toString? bytes).isNone then throw (unreadable "stream did not contain valid UTF-8")
  let json ← match Json.ofText bytes with
    | .ok json => pure json
    | .error fault =>
      throw ("failed to parse JSON source file (" ++ path ++ "): " ++ fault.message bytes)
  let json ← match pointer with
    | none => pure json
    | some pointer =>
      match json.atPointer? pointer with
      | some json => pure json
      | none => throw ("JSON pointer " ++ pointer ++ " not found in " ++ path)
  match filter with
  | none => pure [(path, json)]
  | some filter =>
    match Filter.run filter json with
    | .error error =>
      throw ("failed to apply jq expression to " ++ path ++ ": " ++ error.message)
    | .ok [json] => pure [(path, json)]
    | .ok all => pure (all.zipIdx.map fun (json, i) => (path ++ "#" ++ toString i, json))

def documentsInAll (pointer filter : Option String) :
    List String → ExceptT String m (List (String × Json))
  | [] => pure []
  | path :: rest => do
    let first ← documentsIn pointer filter path
    let more ← documentsInAll pointer filter rest
    pure (first ++ more)

def errorLine (colour : Bool) (error : InputError) : String :=
  Style.yellow.paint colour error.path.describe ++ " " ++ error.fault.message

def checkLines (colour : Bool) (parameters : List Parameter) (label : String) (document : Json) :
    List String × Bool :=
  match checkInputs parameters document with
  | .ok _ => ([Style.boldGreen.paint colour "valid" ++ " " ++ label], true)
  | .error errors =>
    ((Style.boldRed.paint colour "invalid" ++ " " ++ label) ::
      errors.map fun error => "    " ++ errorLine colour error, false)

def checkReport (colour : Bool) (parameters : List Parameter) (documents : List (String × Json)) :
    Report :=
  let results := documents.map fun (label, document) =>
    checkLines colour parameters label document
  ⟨joinLines (results.flatMap Prod.fst), "", results.all Prod.snd⟩

def run (colour : Bool) (registry : Registry) : Command → ExceptT String m Report
  | .programs =>
    let lines := registry.map fun (name, program) => programLine colour name program
    pure (.ofOutput (joinLines lines))
  | .describe program leaves => do
    let (name, program) ← pick registry program
    pure (.ofOutput (joinLines (describeLines colour leaves name program)))
  | .template program previous out => do
    let session ← openSession registry program previous
    writeInputs out session.inputs
  | .check program pointer filter inputs => do
    let (_, program) ← pick registry program
    let paths ← orFail LoadError.fullMessage (resolvePatterns inputs)
    let documents ← documentsInAll pointer filter paths
    pure (checkReport colour program.parameters documents)
  | .set program input path value out => do
    let session ← openSession registry program input
    match session.edit path value with
    | (.error error, _) => throw error.message
    | (.ok .committed, session) => writeInputs out session.inputs
    | (.ok (.rejected error), _) =>
      let line := Style.boldRed.paint colour "rejected" ++ " " ++ errorLine colour error
      pure ⟨"", joinLines [line], false⟩

end Command

variable {m : Type → Type} [Monad m] [Disk m]

def Invocation.run (colour : Bool) (invocation : Invocation) : m (Except String Report) :=
  ExceptT.run do
    let registry ← Command.loadRegistry invocation.sources
    invocation.command.run colour registry

end CircuitForm
