import CircuitForm.Disk.Glob
import CircuitForm.Program.Json

/-!
# Loading programs

A registry is one document, or one file for each program, whose name is that of the file
without its extension. Files are named by paths and by patterns; a path is taken as it is, a
pattern has to match something.
-/

namespace CircuitForm

inductive LoadError where
  | io (path : String) (fault : DiskFault)
  | parse (path : String) (error : Json.DocumentError)
  | pattern (text : String) (error : PatternError)
  | noMatches (pattern : String)
  | duplicate (name : String)
deriving DecidableEq, Repr

namespace LoadError

def cause? : LoadError → Option String
  | .io _ fault => some fault.message
  | .parse _ error => some error.text
  | .pattern _ error => some error.message
  | .noMatches _ => none
  | .duplicate _ => none

def message : LoadError → String
  | .io path fault => "failed to read " ++ path ++ ": " ++ fault.message
  | .parse path error => "failed to parse " ++ path ++ ": " ++ error.text
  | .pattern text error => "invalid glob pattern `" ++ text ++ "`: " ++ error.message
  | .noMatches text => "glob pattern matched no files: " ++ text
  | .duplicate name => "program `" ++ name ++ "` is defined more than once"

end LoadError

variable {m : Type → Type} [Monad m] [Disk m]

def resolvePattern (text : String) : m (Except LoadError (List String)) := do
  if hasWildcards text then
    match ← Glob.run text with
    | .error error => pure (.error (.pattern text error))
    | .ok [] => pure (.error (.noMatches text))
    | .ok paths => pure (.ok paths)
  else
    pure (.ok [text])

def resolvePatterns : List String → m (Except LoadError (List String))
  | [] => pure (.ok [])
  | text :: rest => do
    match ← resolvePattern text with
    | .error error => pure (.error error)
    | .ok paths =>
      match ← resolvePatterns rest with
      | .error error => pure (.error error)
      | .ok more => pure (.ok (paths ++ more))

def loadDocument {α : Type} (decoder : Json.Decoder α) (path : String) :
    m (Except LoadError α) := do
  match ← Disk.read path with
  | .error fault => pure (.error (.io path fault))
  | .ok document =>
    pure ((Json.decodeDocument decoder document).mapError (LoadError.parse path))

def programName (path : String) : String :=
  match Disk.fileName? path with
  | some name => Disk.stem name
  | none => path

def loadPrograms : List String → m (Except LoadError (List (String × Program)))
  | [] => pure (.ok [])
  | path :: rest => do
    match ← loadDocument Program.decoder path with
    | .error error => pure (.error error)
    | .ok program =>
      match ← loadPrograms rest with
      | .error error => pure (.error error)
      | .ok more => pure (.ok ((programName path, program) :: more))

namespace Registry

def load (path : String) : m (Except LoadError Registry) :=
  loadDocument Registry.decoder path

def loadArtifacts (patterns : List String) : m (Except LoadError Registry) := do
  match ← resolvePatterns patterns with
  | .error error => pure (.error error)
  | .ok paths =>
    match ← loadPrograms paths with
    | .error error => pure (.error error)
    | .ok programs => pure ((Registry.ofPrograms programs).mapError LoadError.duplicate)

end Registry

end CircuitForm
