import CircuitForm.Command.Run

/-!
# The program

The commands on the disk of the machine. Reports go to the standard output and messages to the
standard error; the exit code is 0 if all is well, 1 for invalid inputs and 2 for a failure.
-/

namespace CircuitForm

def DiskFault.ofError : IO.Error → DiskFault
  | .noFileOrDirectory .. => .notFound
  | .alreadyExists .. => .alreadyPresent
  | .permissionDenied .. => .denied
  | .inappropriateType _ code details =>
    if code = 20 then .notDirectory else if code = 21 then .isDirectory else .other details
  | error => .other error.toString

def diskResult {α : Type} (action : IO α) : IO (Except DiskFault α) := do
  let result ← action.toBaseIO
  return result.mapError DiskFault.ofError

instance : Disk IO where
  read path := diskResult do
    let content ← IO.FS.readBinFile path
    return content.data.toList
  write path content := diskResult (IO.FS.writeBinFile path ⟨content.toArray⟩)
  makeDirectory path := diskResult (IO.FS.createDir path)
  isDirectory path := do
    let place := (← IO.currentDir) / path
    place.isDir
  isPresent path := do
    let place := (← IO.currentDir) / path
    place.pathExists
  names path := diskResult do
    let place := (← IO.currentDir) / path
    let entries ← place.readDir
    return (entries.toList.map (·.fileName)).mergeSort Disk.nameLE

def helpText : String :=
  joinLines [
    "build, edit and check input trees for compiled circuit programs",
    "",
    "Usage: circuit-inputs [OPTIONS] <COMMAND>",
    "",
    "Commands:",
    "  programs  list registered programs",
    "  describe  print each parameter of a program with its type and visibility",
    "  template  print the default input map, optionally seeded from a previous one",
    "  check     validate input documents against a program",
    "  set       apply one edit to an input map",
    "  help      print this message",
    "",
    "Options:",
    "  --registry <FILE>         combined registry document",
    "  --artifacts <PATTERN>...  compiled artifacts, one program per file",
    "  -h, --help                print help",
    "  -V, --version             print version"]

def versionText : String := "circuit-inputs 0.1.0\n"

def printUsageError (colour : Bool) (error : UsageError) : IO Unit :=
  match error with
  | .helpWanted => IO.print helpText
  | .versionWanted => IO.print versionText
  | .nothingGiven => IO.eprint helpText
  | error => IO.eprintln (Style.boldRed.paint colour "error:" ++ " " ++ error.message)

def runArguments (arguments : List String) : IO UInt32 := do
  let terminal ← (← IO.getStdout).isTty
  let colour := Style.isWanted (← IO.getEnv "CLICOLOR_FORCE") (← IO.getEnv "NO_COLOR")
    (← IO.getEnv "CLICOLOR") terminal
  match Invocation.ofArguments (← IO.getEnv "CIRCUIT_INPUTS_REGISTRY") arguments with
  | .error error =>
    printUsageError colour error
    return error.exitCode.toUInt32
  | .ok invocation =>
    let result : Except String Report ← invocation.run colour
    match result with
    | .ok report =>
      IO.print report.output
      IO.eprint report.errors
      return report.exitCode.toUInt32
    | .error message =>
      IO.eprintln (Style.boldRed.paint colour "error:" ++ " " ++ message)
      return Report.failureCode.toUInt32

end CircuitForm

def main (arguments : List String) : IO UInt32 :=
  CircuitForm.runArguments arguments
