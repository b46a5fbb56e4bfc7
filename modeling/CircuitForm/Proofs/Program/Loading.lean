import CircuitForm.Program.Loader
import CircuitForm.Proofs.Descriptor.Decoding
import CircuitForm.Proofs.Disk.FileTree
import CircuitForm.Proofs.Json.Reading

/-!
# Loaded registries

A registry is read as one document or put together from the documents of its programs. In either
case a program can be written within the brackets of its document, and a parameter's type is so
deep inside it that its values can be read again.
-/

namespace CircuitForm

open Json (Fault Decoder)

namespace Parameter

/-- Can be written within so many brackets, one of which is its own. -/
def Encodable (parameter : Parameter) (d : Nat) : Prop :=
  ∃ c, d = c + 1 ∧ parameter.type.Encodable c

def Slots.Within (slots : Slots) (d : Nat) : Prop :=
  ∀ type, slots.type = some type → type.Encodable d

theorem within_of_member {d : Nat} {slots next : Slots} {name : String}
    {read : Bytes → Except Fault (Slots × Bytes)} {text rest : Bytes} (hSlots : slots.Within d)
    (hReads : member d slots name = .reads read) (h : read text = .ok (next, rest)) : next.Within d := by
  rw [member.eq_def] at hReads
  split at hReads
  · obtain ⟨found, -, rfl⟩ := Decoder.exists_of_field hReads h
    exact hSlots
  · obtain ⟨type, hType, rfl⟩ := Decoder.exists_of_field hReads h
    rintro _ ⟨⟩
    exact Descriptor.encodable_of_decoder hType
  · obtain ⟨visibility, -, rfl⟩ := Decoder.exists_of_field hReads h
    exact hSlots
  · cases hReads

theorem encodable_of_row {d : Nat} {text rest : Bytes} {parameter : Parameter}
    (h : row d text = .ok (parameter, rest)) : parameter.type.Encodable d := by
  obtain ⟨name, -, hMore⟩ := bind_eq_ok_iff.mp h
  obtain ⟨type, hType, hEnd⟩ := bind_eq_ok_iff.mp hMore
  obtain ⟨visibility, -, hParameter⟩ := bind_eq_ok_iff.mp hEnd
  cases hParameter
  obtain ⟨inner, hRead⟩ := Decoder.exists_of_rowField hType
  exact Descriptor.encodable_of_decoder hRead

theorem encodable_of_decoder {depth : Nat} {text rest : Bytes} {parameter : Parameter}
    (h : decoder depth text = .ok (parameter, rest)) : parameter.Encodable depth := by
  obtain ⟨d, rfl, ⟨inner, after, hRow⟩ | ⟨slots, hSlots, hFinish⟩⟩ :=
    Decoder.record_cases (motive := fun d slots => Slots.Within slots d) h (fun _ => nofun)
      (fun _ _ _ _ _ _ _ => within_of_member)
  · exact ⟨d, rfl, encodable_of_row hRow⟩
  · obtain ⟨name, -, hMore⟩ := bind_eq_ok_iff.mp hFinish
    obtain ⟨type, hType, hParameter⟩ := bind_eq_ok_iff.mp hMore
    cases hParameter
    exact ⟨d, rfl, hSlots type (Json.required_eq_ok_iff.mp hType)⟩

end Parameter

namespace Program

namespace Interface

/-- Can be written with so many brackets inside the list of the parameters. -/
structure Encodable (interface : Interface) (d : Nat) : Prop where
  parameters : ∀ parameter ∈ interface.parameters, parameter.Encodable d
  returnType : ∀ json, interface.returnType = some json → json.Kept (d + 1)

structure Slots.Within (slots : Slots) (d : Nat) : Prop where
  parameters : ∀ parameters, slots.parameters = some parameters →
    ∃ c, d = c + 1 ∧ ∀ parameter ∈ parameters, parameter.Encodable c
  returnType : ∀ json, slots.returnType = some (some json) → json.Kept d

theorem encodable_of_parametersDecoder {depth : Nat} {text rest : Bytes} {parameters : List Parameter}
    (h : parametersDecoder depth text = .ok (parameters, rest)) :
    ∃ d, depth = d + 1 ∧ ∀ parameter ∈ parameters, parameter.Encodable d :=
  Decoder.forall_of_list (P := fun d parameter => parameter.Encodable d)
    (fun _ _ _ _ => Parameter.encodable_of_decoder) h

theorem within_of_member {d : Nat} {slots next : Slots} {name : String}
    {read : Bytes → Except Fault (Slots × Bytes)} {text rest : Bytes} (hSlots : slots.Within d)
    (hReads : member d slots name = .reads read) (h : read text = .ok (next, rest)) : next.Within d := by
  rw [member.eq_def] at hReads
  split at hReads
  · obtain ⟨parameters, hParameters, rfl⟩ := Decoder.exists_of_field hReads h
    refine { hSlots with parameters := ?_ }
    rintro _ ⟨⟩
    exact encodable_of_parametersDecoder hParameters
  · obtain ⟨returnType, hRead, rfl⟩ := Decoder.exists_of_field hReads h
    refine { hSlots with returnType := ?_ }
    rintro json ⟨⟩
    exact Json.kept_of_optional hRead
  · cases hReads

theorem encodable_of_row {d : Nat} {text rest : Bytes} {interface : Interface}
    (h : row d text = .ok (interface, rest)) : ∃ c, d = c + 1 ∧ interface.Encodable c := by
  obtain ⟨parameters, hParameters, hMore⟩ := bind_eq_ok_iff.mp h
  obtain ⟨⟨returnType, after⟩, hReturn, hInterface⟩ := bind_eq_ok_iff.mp hMore
  cases hInterface
  obtain ⟨inner, hRead⟩ := Decoder.exists_of_rowField hParameters
  obtain ⟨c, rfl, hEach⟩ := encodable_of_parametersDecoder hRead
  refine ⟨c, rfl, hEach, ?_⟩
  rintro json ⟨⟩
  obtain hNone | ⟨inner, hSome⟩ := Decoder.exists_of_rowFieldD hReturn
  · cases hNone
  · exact Json.kept_of_optional hSome

theorem encodable_of_decoder {depth : Nat} {text rest : Bytes} {interface : Interface}
    (h : decoder depth text = .ok (interface, rest)) : ∃ d, depth = d + 2 ∧ interface.Encodable d := by
  obtain ⟨d, rfl, ⟨inner, after, hRow⟩ | ⟨slots, hSlots, hFinish⟩⟩ :=
    Decoder.record_cases (motive := fun d slots => Slots.Within slots d) h (fun _ => ⟨nofun, nofun⟩)
      (fun _ _ _ _ _ _ _ => within_of_member)
  · obtain ⟨c, rfl, hEncodable⟩ := encodable_of_row hRow
    exact ⟨c, rfl, hEncodable⟩
  · obtain ⟨parameters, hParameters, hInterface⟩ := bind_eq_ok_iff.mp hFinish
    cases hInterface
    obtain ⟨c, rfl, hEach⟩ := hSlots.parameters parameters (Json.required_eq_ok_iff.mp hParameters)
    exact ⟨c, rfl, hEach, fun json hSome => hSlots.returnType json (Json.eq_some_of_getD hSome)⟩

end Interface

/-- Can be written with so many brackets inside the list of the parameters, and read back. -/
structure Encodable (program : Program) (d : Nat) : Prop where
  hash : ∀ json, program.hash = some json → json.Kept (d + 2)
  interface : (Interface.mk program.parameters program.returnType).Encodable d

structure Slots.Within (slots : Slots) (d : Nat) : Prop where
  hash : ∀ json, slots.hash = some (some json) → json.Kept d
  interface : ∀ interface, slots.interface = some interface → ∃ c, d = c + 2 ∧ interface.Encodable c

theorem within_of_member {d : Nat} {slots next : Slots} {name : String}
    {read : Bytes → Except Fault (Slots × Bytes)} {text rest : Bytes} (hSlots : slots.Within d)
    (hReads : member d slots name = .reads read) (h : read text = .ok (next, rest)) : next.Within d := by
  rw [member.eq_def] at hReads
  split at hReads
  · obtain ⟨version, -, rfl⟩ := Decoder.exists_of_field hReads h
    exact { hSlots with }
  · obtain ⟨hash, hHash, rfl⟩ := Decoder.exists_of_field hReads h
    refine { hSlots with hash := ?_ }
    rintro json ⟨⟩
    exact Json.kept_of_optional hHash
  · obtain ⟨interface, hInterface, rfl⟩ := Decoder.exists_of_field hReads h
    refine { hSlots with interface := ?_ }
    rintro _ ⟨⟩
    exact Interface.encodable_of_decoder hInterface
  · obtain ⟨bytecode, -, rfl⟩ := Decoder.exists_of_field hReads h
    exact { hSlots with }
  · cases hReads

theorem encodable_of_row {d : Nat} {text rest : Bytes} {program : Program}
    (h : row d text = .ok (program, rest)) : ∃ c, d = c + 2 ∧ program.Encodable c := by
  obtain ⟨version, -, hMore⟩ := bind_eq_ok_iff.mp h
  obtain ⟨⟨hash, afterHash⟩, hHash, hMore⟩ := bind_eq_ok_iff.mp hMore
  obtain ⟨interface, hInterface, hBytecode⟩ := bind_eq_ok_iff.mp hMore
  obtain ⟨bytecode, -, hProgram⟩ := bind_eq_ok_iff.mp hBytecode
  cases hProgram
  obtain ⟨inner, hInner⟩ := Decoder.exists_of_rowField hInterface
  obtain ⟨c, rfl, hEncodable⟩ := Interface.encodable_of_decoder hInner
  refine ⟨c, rfl, ?_, hEncodable⟩
  rintro json ⟨⟩
  obtain hNone | ⟨inner, hSome⟩ := Decoder.exists_of_rowFieldD hHash
  · cases hNone
  · exact Json.kept_of_optional hSome

theorem encodable_of_decoder {depth : Nat} {text rest : Bytes} {program : Program}
    (h : decoder depth text = .ok (program, rest)) : ∃ d, depth = d + 3 ∧ program.Encodable d := by
  obtain ⟨d, rfl, ⟨inner, after, hRow⟩ | ⟨slots, hSlots, hFinish⟩⟩ :=
    Decoder.record_cases (motive := fun d slots => Slots.Within slots d) h (fun _ => ⟨nofun, nofun⟩)
      (fun _ _ _ _ _ _ _ => within_of_member)
  · obtain ⟨c, rfl, hEncodable⟩ := encodable_of_row hRow
    exact ⟨c, rfl, hEncodable⟩
  · obtain ⟨interface, hInterface, hProgram⟩ := bind_eq_ok_iff.mp hFinish
    cases hProgram
    obtain ⟨c, rfl, hEncodable⟩ := hSlots.interface interface (Json.required_eq_ok_iff.mp hInterface)
    exact ⟨c, rfl, fun json hSome => hSlots.hash json (Json.eq_some_of_getD hSome), hEncodable⟩

/-- No parameter has a type that nests deeper. -/
def Within (parameters : List Parameter) (d : Nat) : Prop :=
  ∀ parameter ∈ parameters, parameter.type.depth ≤ d

theorem Within.mono {parameters : List Parameter} {c d : Nat} (h : Within parameters c) (hLe : c ≤ d) :
    Within parameters d :=
  fun parameter hParameter => Nat.le_trans (h parameter hParameter) hLe

theorem Encodable.within {program : Program} {d : Nat} (h : program.Encodable d) :
    Within program.parameters d := by
  intro parameter hParameter
  obtain ⟨c, rfl, hType⟩ := h.interface.parameters parameter hParameter
  calc parameter.type.depth
    _ ≤ parameter.type.toJson.depth := Descriptor.depth_le_depth_toJson parameter.type
    _ ≤ c := hType.depth
    _ ≤ c + 1 := Nat.le_succ c

end Program

namespace Registry

/-- What can be loaded: one document, or programs each from a document of its own. -/
inductive Loaded : Registry → Prop where
  | together {document : Bytes} {registry : Registry}
      (h : Json.decodeDocument decoder document = .ok registry) : Loaded registry
  | apart {programs : List (String × Program)} {registry : Registry}
      (hPrograms : ∀ entry ∈ programs, ∃ document,
        Json.decodeDocument Program.decoder document = .ok entry.2)
      (h : ofPrograms programs = .ok registry) : Loaded registry

theorem foldlM_eq_append {programs : List (String × Program)} {front registry : Registry}
    (h : programs.foldlM (fun registry (name, program) =>
      match registry.lookup name with
      | some _ => .error name
      | none => .ok (registry ++ [(name, program)])) front = (.ok registry : Except String Registry)) :
    registry = front ++ programs := by
  induction programs generalizing front with
  | nil =>
    cases h
    exact (List.append_nil _).symm
  | cons entry rest ih =>
    obtain ⟨name, program⟩ := entry
    rw [List.foldlM_cons] at h
    obtain ⟨next, hNext, hRest⟩ := bind_eq_ok_iff.mp h
    dsimp only at hNext
    split at hNext
    · cases hNext
    · cases hNext
      rw [ih hRest, List.append_assoc, List.singleton_append]

theorem eq_of_ofPrograms {programs : List (String × Program)} {registry : Registry}
    (h : ofPrograms programs = .ok registry) : registry = programs :=
  foldlM_eq_append h

theorem encodable_of_decodeDocument {document : Bytes} {program : Program}
    (h : Json.decodeDocument Program.decoder document = .ok program) : program.Encodable 124 := by
  obtain ⟨rest, hDecoder⟩ := Json.decodeDocument_eq_ok_iff.mp h
  obtain ⟨d, hDepth, hProgram⟩ := Program.encodable_of_decoder hDecoder
  have hLimit : 127 = d + 3 := hDepth
  obtain rfl : d = 124 := by omega
  exact hProgram

/-- There is room for the bracket around the inputs and for those of every value in them. -/
theorem Loaded.within {registry : Registry} (h : Loaded registry) {entry : String × Program}
    (hEntry : entry ∈ registry) : Program.Within entry.2.parameters 126 := by
  cases h with
  | together h =>
    obtain ⟨rest, hDecoder⟩ := Json.decodeDocument_eq_ok_iff.mp h
    obtain ⟨d, hDepth, hEach⟩ := Decoder.forall_of_map
      (P := fun depth program => ∃ d, depth = d + 3 ∧ program.Encodable d)
      (fun _ _ _ _ => Program.encodable_of_decoder) hDecoder
    obtain ⟨c, rfl, hProgram⟩ := hEach entry hEntry
    have hLimit : 127 = c + 3 + 1 := hDepth
    exact hProgram.within.mono (by omega)
  | apart hPrograms h =>
    rw [eq_of_ofPrograms h] at hEntry
    obtain ⟨document, hDocument⟩ := hPrograms entry hEntry
    exact (encodable_of_decodeDocument hDocument).within.mono (by decide)

theorem exists_of_loadDocument {α : Type} {decoder : Json.Decoder α} {path : String}
    {files after : FileTree} {value : α}
    (h : (loadDocument decoder path : StateM FileTree _) files = (.ok value, after)) :
    ∃ document, Json.decodeDocument decoder document = .ok value := by
  rw [loadDocument, FileTree.run_bind] at h
  generalize (Disk.read path : StateM FileTree _) files = found at h
  obtain ⟨_ | document, files⟩ := found
  · cases h
  · dsimp only at h
    refine ⟨document, ?_⟩
    cases hDecoded : Json.decodeDocument decoder document with
    | error _ =>
      rw [hDecoded] at h
      cases h
    | ok decoded =>
      rw [hDecoded] at h
      cases h
      rfl

theorem exists_of_loadPrograms {paths : List String} {files after : FileTree}
    {programs : List (String × Program)}
    (h : (loadPrograms paths : StateM FileTree _) files = (.ok programs, after)) :
    ∀ entry ∈ programs, ∃ document, Json.decodeDocument Program.decoder document = .ok entry.2 := by
  induction paths generalizing files programs with
  | nil =>
    cases h
    nofun
  | cons path rest ih =>
    rw [loadPrograms, FileTree.run_bind] at h
    cases hFirst : (loadDocument Program.decoder path : StateM FileTree _) files with
    | mk first files =>
      rw [hFirst] at h
      cases first with
      | error _ => cases h
      | ok program =>
        dsimp only at h
        rw [FileTree.run_bind] at h
        cases hRest : (loadPrograms rest : StateM FileTree _) files with
        | mk more files =>
          rw [hRest] at h
          cases more with
          | error _ => cases h
          | ok more =>
            cases h
            rw [List.forall_mem_cons]
            exact ⟨exists_of_loadDocument hFirst, ih hRest⟩

theorem Loaded.of_load {path : String} {files after : FileTree} {registry : Registry}
    (h : (load path : StateM FileTree _) files = (.ok registry, after)) : Loaded registry := by
  obtain ⟨document, hDocument⟩ := exists_of_loadDocument h
  exact .together hDocument

theorem Loaded.of_loadArtifacts {patterns : List String} {files after : FileTree} {registry : Registry}
    (h : (loadArtifacts patterns : StateM FileTree _) files = (.ok registry, after)) :
    Loaded registry := by
  rw [loadArtifacts, FileTree.run_bind] at h
  generalize (resolvePatterns patterns : StateM FileTree _) files = resolved at h
  obtain ⟨_ | paths, files⟩ := resolved
  · cases h
  · dsimp only at h
    rw [FileTree.run_bind] at h
    cases hPrograms : (loadPrograms paths : StateM FileTree _) files with
    | mk programs files =>
      rw [hPrograms] at h
      cases programs with
      | error _ => cases h
      | ok programs =>
        cases hRegistry : ofPrograms programs with
        | error _ =>
          dsimp only at h
          rw [hRegistry] at h
          cases h
        | ok found =>
          dsimp only at h
          rw [hRegistry] at h
          cases h
          exact .apart (exists_of_loadPrograms hPrograms) hRegistry

end Registry

end CircuitForm
