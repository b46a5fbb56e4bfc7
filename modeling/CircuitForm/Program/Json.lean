import CircuitForm.Program.Basic
import CircuitForm.Descriptor.Json
import CircuitForm.Descriptor.Decoder

/-!
# Programs as JSON

A program is a record whose parameters and return type are in a record of their own. All but
the parameters may be absent. A registry is an object of programs by name.
-/

namespace CircuitForm

open Json (Reason Decoder Member)

namespace Program

def hashText (p : Program) : Option String :=
  p.hash.map fun
    | .string s => s
    | json => json.compact

def toJson (p : Program) : Json :=
  .object [
    ("noir_version", (p.version.map Json.string).getD .null),
    ("hash", p.hash.getD .null),
    ("abi", .object [
      ("parameters", .array (p.parameters.map Parameter.toJson)),
      ("return_type", p.returnType.getD .null)]),
    ("bytecode", .string p.bytecode)]

structure Interface where
  parameters : List Parameter
  returnType : Option Json

namespace Interface

structure Slots where
  parameters : Option (List Parameter) := none
  returnType : Option (Option Json) := none

def parametersDecoder : Decoder (List Parameter) :=
  Decoder.list Parameter.decoder

def returnTypeDecoder : Decoder (Option Json) :=
  Decoder.optional Decoder.json

def member (depth : Nat) (slots : Slots) (name : String) : Member Slots :=
  match name with
  | "parameters" =>
    Decoder.field slots.parameters parametersDecoder depth fun parameters =>
      { slots with parameters := some parameters }
  | "return_type" =>
    Decoder.field slots.returnType returnTypeDecoder depth fun returnType =>
      { slots with returnType := some returnType }
  | _ => .unknown

def finish (slots : Slots) : Except Reason Interface := do
  let parameters ← Json.required "parameters" slots.parameters
  .ok ⟨parameters, slots.returnType.getD none⟩

def row : Decoder Interface :=
  fun depth text => do
    let expected := "struct ProgramAbi with 2 elements"
    let (parameters, rest) ← Decoder.rowField expected 0 (parametersDecoder depth) text
    let (returnType, rest) ← Decoder.rowFieldD none 1 (returnTypeDecoder depth) rest
    .ok (⟨parameters, returnType⟩, rest)

def decoder : Decoder Interface :=
  Decoder.record "struct ProgramAbi" {} member finish row

end Interface

structure Slots where
  version : Option (Option String) := none
  hash : Option (Option Json) := none
  interface : Option Interface := none
  bytecode : Option String := none

def versionDecoder : Decoder (Option String) :=
  Decoder.optional Decoder.string

def hashDecoder : Decoder (Option Json) :=
  Decoder.optional Decoder.json

def member (depth : Nat) (slots : Slots) (name : String) : Member Slots :=
  match name with
  | "noir_version" =>
    Decoder.field slots.version versionDecoder depth fun version =>
      { slots with version := some version }
  | "hash" =>
    Decoder.field slots.hash hashDecoder depth fun hash => { slots with hash := some hash }
  | "abi" =>
    Decoder.field slots.interface Interface.decoder depth fun interface =>
      { slots with interface := some interface }
  | "bytecode" =>
    Decoder.field slots.bytecode Decoder.string depth fun bytecode =>
      { slots with bytecode := some bytecode }
  | _ => .unknown

def finish (slots : Slots) : Except Reason Program := do
  let interface ← Json.required "abi" slots.interface
  .ok {
    version := slots.version.getD none
    hash := slots.hash.getD none
    parameters := interface.parameters
    returnType := interface.returnType
    bytecode := slots.bytecode.getD "" }

def row : Decoder Program :=
  fun depth text => do
    let expected := "struct ProgramArtifact with 4 elements"
    let (version, rest) ← Decoder.rowFieldD none 0 (versionDecoder depth) text
    let (hash, rest) ← Decoder.rowFieldD none 1 (hashDecoder depth) rest
    let (interface, rest) ← Decoder.rowField expected 2 (Interface.decoder depth) rest
    let (bytecode, rest) ← Decoder.rowFieldD "" 3 (Decoder.string depth) rest
    .ok (⟨version, hash, interface.parameters, interface.returnType, bytecode⟩, rest)

def decoder : Decoder Program :=
  Decoder.record "struct ProgramArtifact" {} member finish row

end Program

namespace Registry

def toJson (registry : Registry) : Json :=
  .object (registry.map fun (name, program) => (name, program.toJson))

def decoder : Decoder Registry :=
  Decoder.map Program.decoder

end Registry

end CircuitForm
