import CircuitForm.Text.Bytes

/-!
# Disks

What the programs of this library need of a file system, as a class of monads, so that the same
program runs on the real one and on a tree of files that is a value. Paths are texts whose
components are set off by slashes.
-/

namespace CircuitForm

inductive DiskFault where
  | notFound
  | denied
  | alreadyPresent
  | notDirectory
  | isDirectory
  | other (text : String)
deriving DecidableEq, Repr

def DiskFault.message : DiskFault → String
  | .notFound => "No such file or directory (os error 2)"
  | .denied => "Permission denied (os error 13)"
  | .alreadyPresent => "File exists (os error 17)"
  | .notDirectory => "Not a directory (os error 20)"
  | .isDirectory => "Is a directory (os error 21)"
  | .other text => text

class Disk (m : Type → Type) where
  read : String → m (Except DiskFault Bytes)
  write : String → Bytes → m (Except DiskFault Unit)
  makeDirectory : String → m (Except DiskFault Unit)
  isDirectory : String → m Bool
  isPresent : String → m Bool
  names : String → m (Except DiskFault (List String))

namespace Disk

def nameLE (a b : String) : Bool :=
  (compare (Bytes.ofString a) (Bytes.ofString b)).isLE

/-- A path below another; the slash between them is not doubled. -/
def join (base name : String) : String :=
  if base.isEmpty ∨ base.endsWith "/" then base ++ name else base ++ "/" ++ name

/-- What stands between the slashes of a path. -/
def split (path : String) : List String :=
  (path.toList.splitOn '/').map String.ofList

/-- The components of a path. Empty ones and points count for nothing, except a point in front. -/
def components (path : String) : List String :=
  match split path with
  | "." :: rest => "." :: rest.filter fun c => c ≠ "" ∧ c ≠ "."
  | all => all.filter fun c => c ≠ "" ∧ c ≠ "."

def isAbsolute (path : String) : Bool :=
  path.startsWith "/"

def ofComponents (absolute : Bool) (components : List String) : String :=
  (if absolute then "/" else "") ++ "/".intercalate components

/-- The directory that a path is in: empty for a path of one component, and none if there is no
component to drop. -/
def parent? (path : String) : Option String :=
  match (components path).reverse with
  | [] => none
  | _ :: above => some (ofComponents (isAbsolute path) above.reverse)

def fileName? (path : String) : Option String :=
  match (components path).getLast? with
  | some "." | some ".." | none => none
  | some name => some name

/-- A file name up to its last point; a point in front of the name does not count. -/
def stem (name : String) : String :=
  match (name.splitOn ".").reverse with
  | [] | [_] | [_, ""] => name
  | _ :: before => ".".intercalate before.reverse

variable {m : Type → Type} [Monad m] [Disk m]

/-- Makes a directory whose path is given by its components in reverse, and those above it where
they are missing. -/
def makeAll (absolute : Bool) : List String → m (Except DiskFault Unit)
  | [] => pure (.ok ())
  | name :: above => do
    let path := ofComponents absolute (name :: above).reverse
    match ← makeDirectory path with
    | .ok () => pure (.ok ())
    | .error .notFound => do
      match ← makeAll absolute above with
      | .error fault => pure (.error fault)
      | .ok () =>
        match ← makeDirectory path with
        | .ok () => pure (.ok ())
        | .error fault => pure (if ← isDirectory path then .ok () else .error fault)
    | .error fault => pure (if ← isDirectory path then .ok () else .error fault)

def makeDirectories (path : String) : m (Except DiskFault Unit) :=
  makeAll (isAbsolute path) (components path).reverse

end Disk

end CircuitForm
