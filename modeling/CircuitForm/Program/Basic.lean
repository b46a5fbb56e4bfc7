import CircuitForm.Descriptor.Basic

/-!
# Compiled programs

What a compiler says about a program. Only its parameters are interpreted; the rest is kept
for the backends that run it and prove things about it. A registry has programs by name, in
the order in which they were given.
-/

namespace CircuitForm

structure Program where
  version : Option String
  hash : Option Json
  parameters : List Parameter
  returnType : Option Json
  bytecode : String
deriving Inhabited, Repr

abbrev Registry := Entries Program

namespace Registry

/-- The registry of a list of programs, or a name that comes again. -/
def ofPrograms (programs : List (String × Program)) : Except String Registry :=
  programs.foldlM (fun registry (name, program) =>
    match registry.lookup name with
    | some _ => .error name
    | none => .ok (registry ++ [(name, program)])) []

/-- The program of a name, or the first program if there is none of that name. -/
def resolve (registry : Registry) (name : String) : Option (String × Program) :=
  match registry.lookup name with
  | some program => some (name, program)
  | none => registry.head?

end Registry

end CircuitForm
