import CircuitForm.Proofs.Descriptor.Spelling
import CircuitForm.Proofs.Json.Forms
import CircuitForm.Proofs.Program.Loading

/-!
# Spellings of a program

A program that has been read is written in a text that is read as the same program. So is every
text that has the same members in other places, and others of names that mean nothing, in the
objects of the program, its interface, its parameters and their descriptors.
-/

namespace CircuitForm

open Json (Arranged Decoder seen)

namespace Parameter

def visibilityToJson : Option Visibility → Json
  | none => .null
  | some visibility => .string visibility.name

def Spells (parameter : Parameter) (json : Json) : Prop :=
  ∃ inner, parameter.type.Spells inner ∧
    Arranged [("name", .string parameter.name), ("type", inner),
      ("visibility", visibilityToJson parameter.visibility)] json

theorem spells_toJson (parameter : Parameter) : parameter.Spells parameter.toJson := by
  obtain ⟨name, type, visibility⟩ := parameter
  refine ⟨_, Descriptor.spells_toJson type, ?_⟩
  cases visibility <;> exact .refl _

theorem reads_visibility (visibility : Option Visibility) :
    visibilityDecoder.Reads (visibilityToJson visibility) visibility := by
  cases visibility with
  | none => exact Decoder.reads_optional_none _
  | some visibility =>
    refine Decoder.Reads.optional nofun (Decoder.reads_choice _ ?_)
    cases visibility <;> rfl

theorem reads_of_spells {parameter : Parameter} (hWords : parameter.type.FitsWords) {json : Json}
    (h : parameter.Spells json) : decoder.Reads json parameter := by
  obtain ⟨name, type, visibility⟩ := parameter
  obtain ⟨inner, hInner, hArranged⟩ := h
  have hType := Descriptor.reads_of_spells hWords hInner
  refine Decoder.reads_of_arranged (fun before =>
    { name := seen "name" name before
      type := seen "type" type before
      visibility := seen "visibility" visibility before }) ?_ rfl ?_ ?_ ?_ hArranged
  · exact (by decide : ["name", "type", "visibility"].Nodup)
  · intro depth before entry hEntry hFresh
    simp only [List.mem_cons, List.not_mem_nil, or_false] at hEntry
    rcases hEntry with rfl | rfl | rfl
    · simpa [member] using Decoder.Takes.field_seen (Decoder.reads_string name) hFresh depth _ _
    · simpa [member] using Decoder.Takes.field_seen hType hFresh depth _ _
    · simpa [member] using Decoder.Takes.field_seen (reads_visibility visibility) hFresh depth _ _
  · intro depth before entry hOther
    simp_all [member]
  · intro members hAll
    simp [finish, Json.required_seen name (hAll "name" (by simp)), Json.required_seen type (hAll "type" (by simp)),
      Json.seen_of_mem visibility (hAll "visibility" (by simp))]

end Parameter

namespace Program

/-- What need not be there is `null` in a text, and data that is there never is. -/
theorem reads_kept {data : Option Json} (h : ∀ json, data = some json → ∃ d, json.Kept d) :
    Decoder.Reads (Decoder.optional Decoder.json) (data.getD .null) data := by
  cases data with
  | none => exact Decoder.reads_optional_none _
  | some json =>
    obtain ⟨d, hKept⟩ := h json rfl
    exact (Decoder.reads_json hKept.plain).optional hKept.not_null

namespace Interface

def Spells (interface : Interface) (json : Json) : Prop :=
  ∃ items, List.Forall₂ Parameter.Spells interface.parameters items ∧
    Arranged [("parameters", .array items), ("return_type", interface.returnType.getD .null)] json

theorem reads_of_spells {interface : Interface} {d : Nat} (hEncodable : interface.Encodable d) {json : Json}
    (h : interface.Spells json) : decoder.Reads json interface := by
  obtain ⟨parameters, returnType⟩ := interface
  obtain ⟨items, hItems, hArranged⟩ := h
  have hParameters : parametersDecoder.Reads (.array items) parameters := by
    refine Decoder.reads_list (Entries.forall₂_imp_of_mem hItems fun parameter hParameter item _ hItem => ?_).flip
    obtain ⟨c, -, hType⟩ := hEncodable.parameters parameter hParameter
    exact Parameter.reads_of_spells hType.words hItem
  have hReturnType : returnTypeDecoder.Reads (returnType.getD .null) returnType :=
    reads_kept fun json hSome => ⟨_, hEncodable.returnType json hSome⟩
  refine Decoder.reads_of_arranged (fun before =>
    { parameters := seen "parameters" parameters before
      returnType := seen "return_type" returnType before }) ?_ rfl ?_ ?_ ?_ hArranged
  · exact (by decide : ["parameters", "return_type"].Nodup)
  · intro depth before entry hEntry hFresh
    rcases List.mem_pair.mp hEntry with rfl | rfl
    · simpa [member] using Decoder.Takes.field_seen hParameters hFresh depth _ _
    · simpa [member] using Decoder.Takes.field_seen hReturnType hFresh depth _ _
  · intro depth before entry hOther
    simp_all [member]
  · intro members hAll
    simp [finish, Json.required_seen parameters (hAll "parameters" (by simp)),
      Json.seen_of_mem returnType (hAll "return_type" (by simp))]

end Interface

/-- The program as JSON, but in the objects of its own, of its interface, of its parameters and of
their descriptors with the members in any order and others in between. -/
def Spells (program : Program) (json : Json) : Prop :=
  ∃ inner, Interface.Spells ⟨program.parameters, program.returnType⟩ inner ∧
    Arranged [("noir_version", (program.version.map Json.string).getD .null), ("hash", program.hash.getD .null),
      ("abi", inner), ("bytecode", .string program.bytecode)] json

theorem spells_toJson (program : Program) : program.Spells program.toJson := by
  refine ⟨_, ⟨program.parameters.map Parameter.toJson, ?_, .refl _⟩, .refl _⟩
  exact List.forall₂_map_right_iff.mpr (List.forall₂_same.mpr fun parameter _ => parameter.spells_toJson)

theorem reads_version (version : Option String) :
    versionDecoder.Reads ((version.map Json.string).getD .null) version := by
  cases version with
  | none => exact Decoder.reads_optional_none _
  | some version => exact (Decoder.reads_string version).optional nofun

theorem reads_of_spells {program : Program} {d : Nat} (hEncodable : program.Encodable d) {json : Json}
    (h : program.Spells json) : decoder.Reads json program := by
  obtain ⟨version, hash, parameters, returnType, bytecode⟩ := program
  obtain ⟨inner, hInner, hArranged⟩ := h
  have hVersion := reads_version version
  have hHash : hashDecoder.Reads (hash.getD .null) hash :=
    reads_kept fun json hSome => ⟨_, hEncodable.hash json hSome⟩
  have hInterface := Interface.reads_of_spells hEncodable.interface hInner
  have hBytecode := Decoder.reads_string bytecode
  refine Decoder.reads_of_arranged (fun before =>
    { version := seen "noir_version" version before
      hash := seen "hash" hash before
      interface := seen "abi" ⟨parameters, returnType⟩ before
      bytecode := seen "bytecode" bytecode before }) ?_ rfl ?_ ?_ ?_ hArranged
  · exact (by decide : ["noir_version", "hash", "abi", "bytecode"].Nodup)
  · intro depth before entry hEntry hFresh
    simp only [List.mem_cons, List.not_mem_nil, or_false] at hEntry
    rcases hEntry with rfl | rfl | rfl | rfl
    · simpa [member] using Decoder.Takes.field_seen hVersion hFresh depth _ _
    · simpa [member] using Decoder.Takes.field_seen hHash hFresh depth _ _
    · simpa [member] using Decoder.Takes.field_seen hInterface hFresh depth _ _
    · simpa [member] using Decoder.Takes.field_seen hBytecode hFresh depth _ _
  · intro depth before entry hOther
    simp_all [member]
  · intro members hAll
    simp [finish, Json.seen_of_mem version (hAll "noir_version" (by simp)),
      Json.seen_of_mem hash (hAll "hash" (by simp)), Json.required_seen _ (hAll "abi" (by simp)),
      Json.seen_of_mem bytecode (hAll "bytecode" (by simp))]

theorem Encodable.depth_toJson_le {program : Program} {d : Nat} (h : program.Encodable d) :
    program.toJson.depth ≤ d + 3 := by
  have hData : ∀ (data : Option Json) (c : Nat), (∀ json, data = some json → json.Kept c) →
      (data.getD .null).depth ≤ c := by
    intro data c hKept
    cases data with
    | none => exact Nat.zero_le c
    | some json => exact (hKept json rfl).depth
  have hVersion : ((program.version.map Json.string).getD .null).depth ≤ d + 2 := by
    cases program.version <;> exact Nat.zero_le _
  have hParameters : ∀ parameter ∈ program.parameters, parameter.toJson.depth ≤ d := by
    intro parameter hParameter
    obtain ⟨c, rfl, hType⟩ := h.interface.parameters parameter hParameter
    refine Json.depth_object_le_iff.mpr ?_
    simp only [List.forall_mem_cons]
    refine ⟨Nat.zero_le _, hType.depth, ?_, nofun⟩
    split <;> exact Nat.zero_le _
  refine Json.depth_object_le_iff.mpr ?_
  simp only [List.forall_mem_cons]
  refine ⟨hVersion, hData program.hash _ h.hash, Json.depth_object_le_iff.mpr ?_, Nat.zero_le _, nofun⟩
  simp only [List.forall_mem_cons]
  refine ⟨Json.depth_array_le_iff.mpr ?_, hData program.returnType _ h.interface.returnType, nofun⟩
  exact List.forall_mem_map.mpr hParameters

/-- A program that has been read is read again from its own text, from the text of whatever else
spells it, and from every text of that. -/
theorem decodeDocument_of_spells {document : Bytes} {program : Program}
    (h : Json.decodeDocument decoder document = .ok program) :
    Json.decodeDocument decoder (Bytes.ofString program.toJson.compact) = .ok program ∧
    (∀ json, program.Spells json → json.depth ≤ Json.depthLimit →
      Json.decodeDocument decoder (Bytes.ofString json.compact) = .ok program) ∧
    ∀ json text rest, program.Spells json → Json.value .verbatim Json.depthLimit text = .ok (json, rest) →
      Json.decodeDocument decoder text = .ok program := by
  have hEncodable := Registry.encodable_of_decodeDocument h
  have hText : ∀ json text rest, program.Spells json →
      Json.value .verbatim Json.depthLimit text = .ok (json, rest) →
        Json.decodeDocument decoder text = .ok program := fun json text rest hSpells hRead =>
    Json.decodeDocument_eq_ok_iff.mpr ⟨rest, reads_of_spells hEncodable hSpells _ _ _ hRead⟩
  have hCompact : ∀ json, program.Spells json → json.depth ≤ Json.depthLimit →
      Json.decodeDocument decoder (Bytes.ofString json.compact) = .ok program := fun json hSpells hDepth =>
    hText json _ [] hSpells (Json.value_compact hDepth)
  exact ⟨hCompact _ program.spells_toJson hEncodable.depth_toJson_le, hCompact, hText⟩

def ballot : Program where
  version := none
  hash := none
  parameters := [⟨"choices", .array 2 .field, some .pub⟩]
  returnType := none
  bytecode := "AA"

/-- The ballot as it may come from a compiler; its parameter's type is written as a row. -/
def ballotDocument : Bytes :=
  Bytes.ofString ("\x7b\"abi\": \x7b\"parameters\": [\x7b\"name\": \"choices\", \"visibility\": \"public\", " ++
    "\"type\": [\"array\", 2, [\"field\"]]\x7d]\x7d, \"bytecode\": \"AA\"\x7d")

set_option maxRecDepth 4000 in
theorem decodeDocument_ballot : Json.decodeDocument decoder ballotDocument = .ok ballot := by
  with_unfolding_all rfl

/-- The ballot with every object's members back to front, and in front of some of them others. -/
def ballotSpelled : Json :=
  .object [("names", .object [("kind", .null)]), ("bytecode", .string "AA"),
    ("abi", .object [("error_types", .array []), ("return_type", .null), ("parameters", .array [
      .object [("line", .number (.ofNat 7)), ("line", .null), ("visibility", .string "public"),
        ("type", .object [("sign", .bool true), ("type", .object [("width", .null), ("kind", .string "field")]),
          ("length", .number (.ofNat 2)), ("kind", .string "array")]),
        ("name", .string "choices")]])]),
    ("hash", .null), ("noir_version", .null)]

theorem spells_ballotSpelled : ballot.Spells ballotSpelled := by
  have hBack : ∀ known extras : Entries Json, (∀ extra ∈ extras, extra.1 ∉ known.names) →
      Arranged known (.object (extras ++ known.reverse)) := fun known extras hExtras =>
    ⟨_, rfl, extras, List.perm_append_comm.trans ((List.reverse_perm known).append_right extras), hExtras⟩
  have hElement : Descriptor.field.Spells _ := hBack _ [("width", .null)] (by decide)
  have hType : (Descriptor.array 2 .field).Spells _ := ⟨_, hElement, hBack _ [("sign", .bool true)] (by decide)⟩
  have hParameter : Parameter.Spells ⟨"choices", .array 2 .field, some .pub⟩ _ :=
    ⟨_, hType, hBack _ [("line", .number (.ofNat 7)), ("line", .null)] (by decide)⟩
  have hInterface : Interface.Spells ⟨ballot.parameters, ballot.returnType⟩ _ :=
    ⟨_, .cons hParameter .nil, hBack _ [("error_types", .array [])] (by decide)⟩
  exact ⟨_, hInterface, hBack _ [("names", .object [("kind", .null)])] (by decide)⟩

theorem decodeDocument_ballotSpelled : Json.decodeDocument decoder ballotDocument = .ok ballot ∧
    Json.decodeDocument decoder (Bytes.ofString ballotSpelled.compact) = .ok ballot :=
  ⟨decodeDocument_ballot,
    (decodeDocument_of_spells decodeDocument_ballot).2.1 ballotSpelled spells_ballotSpelled (by decide)⟩

end Program

end CircuitForm
