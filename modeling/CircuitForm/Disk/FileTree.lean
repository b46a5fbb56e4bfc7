import CircuitForm.Disk.Basic

/-!
# Trees of files

A working directory with everything below it, as a value. Files and directories are listed by
the components of their paths; the directory itself is always there, and nothing outside it
is known except that it lies in other directories.
-/

namespace CircuitForm

inductive FileNode where
  | file (content : Bytes)
  | directory
deriving DecidableEq, Repr

structure FileTree where
  nodes : List (List String × FileNode)

namespace FileTree

def node? (tree : FileTree) (place : List String) : Option FileNode :=
  if place.all (· = "..") then some .directory else tree.nodes.lookup place

/-- One component further; two points lead to the directory around a place. -/
def step (place : List String) (component : String) : List String :=
  if component = "" ∨ component = "." then place
  else if component = ".." ∧ !place.all (· = "..") then place.dropLast
  else place ++ [component]

def walk (tree : FileTree) : (place : List String) → List String →
    Except DiskFault (List String)
  | place, [] => .ok place
  | place, component :: rest =>
    match tree.node? place with
    | none => .error .notFound
    | some (.file _) => .error .notDirectory
    | some .directory => walk tree (step place component) rest

/-- The place that a path names, which need not be taken. -/
def placeOf (tree : FileTree) (path : String) : Except DiskFault (List String) :=
  if path.isEmpty ∨ Disk.isAbsolute path then .error .notFound
  else tree.walk [] (Disk.split path)

def find (tree : FileTree) (path : String) : Except DiskFault FileNode := do
  let place ← tree.placeOf path
  match tree.node? place with
  | some node => .ok node
  | none => .error .notFound

def set (tree : FileTree) (place : List String) (node : FileNode) : FileTree :=
  ⟨tree.nodes.filter (·.1 ≠ place) ++ [(place, node)]⟩

def read (tree : FileTree) (path : String) : Except DiskFault Bytes := do
  match ← tree.find path with
  | .file content => .ok content
  | .directory => .error .isDirectory

def write (tree : FileTree) (path : String) (content : Bytes) : Except DiskFault FileTree := do
  let place ← tree.placeOf (if path.endsWith '/' then (path.dropEnd 1).toString else path)
  match tree.node? place with
  | some .directory => .error .isDirectory
  | some (.file _) =>
    if path.endsWith '/' then .error .notDirectory else .ok (tree.set place (.file content))
  | none => if path.endsWith '/' then .error .isDirectory else .ok (tree.set place (.file content))

def makeDirectory (tree : FileTree) (path : String) : Except DiskFault FileTree := do
  let place ← tree.placeOf path
  match tree.node? place with
  | some _ => .error .alreadyPresent
  | none => .ok (tree.set place .directory)

def isDirectory (tree : FileTree) (path : String) : Bool :=
  match tree.find path with
  | .ok .directory => true
  | _ => false

def names (tree : FileTree) (path : String) : Except DiskFault (List String) := do
  let place ← tree.placeOf path
  match tree.node? place with
  | none => .error .notFound
  | some (.file _) => .error .notDirectory
  | some .directory =>
    let here := tree.nodes.filterMap fun (other, _) =>
      match other.getLast? with
      | some name => if other = place ++ [name] then some name else none
      | none => none
    .ok (here.mergeSort Disk.nameLE)

def addFile (tree : FileTree) (place : List String) (content : Bytes) : FileTree :=
  let above := (List.range place.length).filterMap fun n =>
    if n = 0 then none else some (place.take n)
  let tree := above.foldl (fun tree place =>
    match tree.node? place with
    | some _ => tree
    | none => tree.set place .directory) tree
  tree.set place (.file content)

def ofFiles (files : List (String × Bytes)) : FileTree :=
  files.foldl (fun tree (name, content) => tree.addFile (Disk.components name) content) ⟨[]⟩

def changes (before after : FileTree) : List (String × Bytes) :=
  after.nodes.filterMap fun (place, node) =>
    match node with
    | .directory => none
    | .file content =>
      if before.node? place = some node then none else some ("/".intercalate place, content)

/-- Runs an operation that may change the tree; a fault leaves it as it was. -/
def update (f : FileTree → Except DiskFault FileTree) : StateM FileTree (Except DiskFault Unit) :=
  fun tree =>
    match f tree with
    | .ok tree => (.ok (), tree)
    | .error fault => (.error fault, tree)

instance : Disk (StateM FileTree) where
  read path := fun tree => (tree.read path, tree)
  write path content := update (·.write path content)
  makeDirectory path := update (·.makeDirectory path)
  isDirectory path := fun tree => (tree.isDirectory path, tree)
  isPresent path := fun tree => ((tree.find path).isOk, tree)
  names path := fun tree => (tree.names path, tree)

end FileTree

end CircuitForm
