import CircuitForm.Path.Basic

/-!
# Invalid paths

Which nodes hold a refused edit. Paths are kept in their order, each once and with a flag that says
whether it is invalid. A path that becomes valid is taken out, so every flag that is kept says invalid;
a program may run while there is none.
-/

namespace CircuitForm

structure InvalidPaths where
  entries : List (Path × Bool)
deriving DecidableEq, Repr

namespace InvalidPaths

def empty : InvalidPaths :=
  ⟨[]⟩

/-- Puts a flag at the place of its path in the order; one that the path has already is replaced. -/
def insertSorted (path : Path) (invalid : Bool) : List (Path × Bool) → List (Path × Bool)
  | [] => [(path, invalid)]
  | (other, flag) :: rest =>
    match path.compare other with
    | .lt => (path, invalid) :: (other, flag) :: rest
    | .eq => (path, invalid) :: rest
    | .gt => (other, flag) :: insertSorted path invalid rest

def register (set : InvalidPaths) (path : Path) (invalid : Bool) : InvalidPaths :=
  if invalid then ⟨insertSorted path true set.entries⟩ else ⟨set.entries.filter (·.1 ≠ path)⟩

def clearSubtree (set : InvalidPaths) (path : Path) : InvalidPaths :=
  ⟨set.entries.filter fun entry => !entry.1.startsWith path⟩

def anyInvalid (set : InvalidPaths) : Bool :=
  set.entries.any (·.2)

def isInvalid (set : InvalidPaths) (path : Path) : Bool :=
  (set.entries.lookup path).getD false

def paths (set : InvalidPaths) : List Path :=
  (set.entries.filter (·.2)).map Prod.fst

def count (set : InvalidPaths) : Nat :=
  set.paths.length

end InvalidPaths

end CircuitForm
