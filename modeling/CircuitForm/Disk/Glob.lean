import CircuitForm.Disk.Basic
import CircuitForm.Disk.Pattern

/-!
# Finding files by pattern

A pattern is followed component by component. A component without wildcards is looked up, any
other is matched against the names in a directory, in their order; two stars stay on at each
directory they lead to. No path is longer than 4096 bytes, which bounds the descent.
-/

namespace CircuitForm.Glob

open Disk

variable {m : Type → Type} [Monad m] [Disk m]

def pathLimit : Nat := 4096

def arrived (requireDirectory : Bool) (path : String) : m (List String) := do
  if requireDirectory then
    pure (if ← isDirectory path then [path] else [])
  else
    pure [path]

def matchOne (descend : List Pattern → String → m (List String)) (requireDirectory : Bool)
    (first : Pattern) (rest : List Pattern) (path name : String) : m (List String) :=
  if first.matchesName name then
    match rest with
    | [] => arrived requireDirectory path
    | _ :: _ => descend rest path
  else
    pure []

def visit (descend : List Pattern → String → m (List String)) (requireDirectory : Bool)
    (patterns : List Pattern) (path name : String) : m (List String) := do
  match patterns with
  | [] => pure []
  | first :: rest =>
    if first.isRecursive then
      let later := rest.dropWhile Pattern.isRecursive
      let isDirectory ← isDirectory path
      let below ← if isDirectory then descend (first :: later) path else pure []
      match later with
      | [] => pure (if isDirectory then path :: below else [])
      | next :: more =>
        let here ← matchOne descend requireDirectory next more path name
        pure (here ++ below)
    else
      matchOne descend requireDirectory first rest path name

def proceed (descend : List Pattern → String → m (List String)) (requireDirectory : Bool)
    (rest : List Pattern) (path : String) : m (List String) :=
  match rest with
  | [] => arrived requireDirectory path
  | _ :: _ => descend rest path

/-- The entries for the directory itself and the one around it. Only a pattern that starts with a
point is matched against them. -/
def dotted (pattern : Pattern) : List String :=
  match pattern with
  | .char '.' :: _ => ["..", "."].filter pattern.matchesName
  | _ => []

def descend (requireDirectory : Bool) : (fuel : Nat) → List Pattern → String → m (List String)
  | 0, _, _ => pure []
  | _ + 1, [], _ => pure []
  | fuel + 1, pattern :: rest, path => do
    let descend := descend requireDirectory fuel
    let isHere := path = "."
    match pattern.literal? with
    | some name =>
      let next := if isHere then name else join path name
      let found ← if name = "." ∨ name = ".." then isDirectory path else isPresent next
      if found then proceed descend requireDirectory rest next else pure []
    | none =>
      if ← isDirectory path then
        match ← names path with
        | .error _ => pure []
        | .ok names =>
          let special ← (dotted pattern).mapM fun name =>
            proceed descend requireDirectory rest (join path name)
          let children ← names.mapM fun name =>
            visit descend requireDirectory (pattern :: rest)
              (if isHere then name else join path name) name
          pure (special.flatten ++ children.flatten)
      else
        pure []

/-- The components of a pattern; a slash at its end adds none. -/
def split (text : String) : List String :=
  match (text.splitOn "/").reverse with
  | "" :: before => before.reverse
  | parts => parts.reverse

def run (text : String) : m (Except PatternError (List String)) := do
  let relative := if isAbsolute text then (text.drop 1).toString else text
  let patterns := do
    let _ ← Pattern.parse text
    (split relative).mapM Pattern.parse
  match patterns with
  | .error e => pure (.error e)
  | .ok patterns =>
    let scope := if isAbsolute text then "/" else "."
    let paths ← descend (text.endsWith "/") pathLimit patterns scope
    pure (.ok paths)

end CircuitForm.Glob
