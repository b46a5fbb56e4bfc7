import CircuitForm.Command.Option

/-!
# Invocations

The commands and what their arguments mean. The options that say where programs are loaded from
may stand before or after the name of the command; what stands after it wins, and both win over
the environment.
-/

namespace CircuitForm

structure Sources where
  artifacts : List String
  registry : Option String
deriving DecidableEq, Repr

inductive Command where
  | programs
  | describe (program : Option String) (leaves : Bool)
  | template (program previous out : Option String)
  | check (program pointer filter : Option String) (inputs : List String)
  | set (program input : Option String) (path : Path) (value : String) (out : Option String)
deriving DecidableEq, Repr

structure Invocation where
  sources : Sources
  command : Command
deriving DecidableEq, Repr

inductive Verb where
  | programs
  | describe
  | template
  | check
  | set
deriving DecidableEq, Repr

namespace Verb

def named : Entries Verb :=
  [("programs", .programs), ("describe", .describe), ("template", .template), ("check", .check),
    ("set", .set)]

def commonRules : List OptionRule :=
  [.one "registry" none .file, .many "artifacts" none,
    .flag "help" (some 'h') (some .helpWanted)]

def programRule : OptionRule :=
  .one "program" (some 'p') .text

def outRule : OptionRule :=
  .one "out" (some 'o') .file

def rules : Verb → List OptionRule
  | .programs => commonRules
  | .describe => commonRules ++ [programRule, .flag "leaves" none none]
  | .template => commonRules ++ [programRule, .one "previous" none .file, outRule]
  | .check =>
    commonRules ++ [programRule, .one "json-pointer" none .text, .one "jq-expr" none .text,
      .many "input" (some 'i')]
  | .set =>
    commonRules ++ [programRule, .one "input" (some 'i') .file, .one "path" none .path,
      { OptionRule.one "value" none .text with anyValue := true }, outRule]

def required : Verb → List String
  | .programs | .describe | .template => []
  | .check => ["input"]
  | .set => ["path", "value"]

end Verb

abbrev Given := Entries (List String)

namespace Given

def all (given : Given) (name : String) : List String :=
  (given.lookup name).getD []

def value? (given : Given) (name : String) : Option String :=
  (given.all name).head?

def isGiven (given : Given) (name : String) : Bool :=
  (given.lookup name).isSome

/-- Completes a scan. An empty variable in the environment is refused wherever it would count. -/
def ofScan (environment : Option String) (scan : OptionScan) : Except UsageError Given := do
  let scan ← scan.settle
  let given : Given := scan.given
  if environment = some "" ∧ !given.isGiven "registry" then .error .missingValue else .ok given

def require (given : Given) (names : List String) : Except UsageError Unit :=
  if names.all given.isGiven then .ok () else .error .missingArgument

def path (given : Given) : Except UsageError Path :=
  match given.value? "path" with
  | none => .error .missingArgument
  | some text => (Path.parse text).mapError fun _ => .invalidValue

def command (given : Given) : Verb → Except UsageError Command
  | .programs => .ok .programs
  | .describe => .ok (.describe (given.value? "program") (given.isGiven "leaves"))
  | .template =>
    .ok (.template (given.value? "program") (given.value? "previous") (given.value? "out"))
  | .check =>
    .ok (.check (given.value? "program") (given.value? "json-pointer") (given.value? "jq-expr")
      (given.all "input"))
  | .set => do
    let path ← given.path
    .ok (.set (given.value? "program") (given.value? "input") path
      ((given.value? "value").getD "") (given.value? "out"))

end Given

def Sources.ofGiven (environment : Option String) (above below : Given) : Sources :=
  { artifacts :=
      if below.isGiven "artifacts" then below.all "artifacts" else above.all "artifacts"
    registry := below.value? "registry" <|> above.value? "registry" <|> environment }

namespace Invocation

def topRules : List OptionRule :=
  Verb.commonRules ++ [.flag "version" (some 'V') (some .versionWanted)]

def helpName : String := "help"

def subcommands : List String :=
  Verb.named.names ++ [helpName]

def helpOn : List String → UsageError
  | [] => .helpWanted
  | [name] => if name ∈ subcommands then .helpWanted else .unknownSubcommand
  | _ => .unknownSubcommand

/-- Reads the arguments of the program; `environment` is the variable that may name a registry.
The arguments of the command are read to their end before those in front of it are judged. -/
def ofArguments (environment : Option String) (arguments : List String) :
    Except UsageError Invocation := do
  let (above, rest) ← OptionScan.run topRules subcommands .start arguments
  match rest with
  | [] => do
    let given ← Given.ofScan environment above
    .error (if given = [] ∧ environment.isNone then .nothingGiven else .noSubcommand)
  | name :: rest =>
    match Verb.named.lookup name with
    | none => .error (helpOn rest)
    | some verb => do
      let (below, _) ← OptionScan.run verb.rules [] .start rest
      let below ← Given.ofScan environment below
      below.require verb.required
      let above ← Given.ofScan environment above
      let command ← below.command verb
      .ok ⟨.ofGiven environment above below, command⟩

end Invocation

end CircuitForm
