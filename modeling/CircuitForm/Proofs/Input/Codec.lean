import CircuitForm.Proofs.Input.Readers
import CircuitForm.Proofs.Input.Text

/-!
# Inputs written and read

Inputs are written in the compact or in the indented form, and either text is read back as the inputs
it was written from. Whatever is read, from a text of any other form, can be written and is read back
too, so the written text is the normal form of all the texts that are read as the same inputs.
-/

namespace CircuitForm

/-- The two ways in which values are printed. -/
def Json.Prints (print : Json → String) : Prop :=
  print = compact ∨ print = pretty

theorem Json.Prints.exists_form {print : Json → String} (h : Prints print) :
    ∃ form : Form, ∀ json, Bytes.ofString (print json) = form.text 0 json := by
  obtain rfl | rfl := h
  · exact ⟨compactForm, ofString_compact⟩
  · exact ⟨prettyForm, ofString_pretty⟩

namespace Inputs

/-- Inputs that a text can hold: the names are distinct at every level, no object inside an entry
begins with the reserved key, and the nesting is within the limit. -/
structure Writable (inputs : Inputs) : Prop where
  distinct : Entries.Distinct inputs
  plain : ∀ entry ∈ inputs, entry.2.toJson.Plain
  depth : inputs.toJson.depth ≤ Json.depthLimit

/-- Reads inputs from a text and writes them anew. -/
def rewrite (print : Json → String) (text : Bytes) : Except Json.DocumentError String :=
  (Json.decodeDocument decoder text).map fun inputs => print inputs.toJson

variable {inputs : Inputs}

/-- The outermost names are read one by one, so the reserved key means nothing there. -/
theorem Writable.of_plain (h : inputs.toJson.Plain) (hDepth : inputs.toJson.depth ≤ Json.depthLimit) :
    Writable inputs := by
  rw [toJson, Json.plain_object_iff, Entries.Distinct, InputTree.names_fieldsToJson,
    InputTree.fieldsToJson_eq_map, List.forall_mem_map] at h
  exact ⟨h.1, h.2.2, hDepth⟩

theorem Writable.of_decoder {text rest : Bytes} (h : decoder Json.depthLimit text = .ok (inputs, rest)) :
    Writable inputs := by
  obtain ⟨d, inside, after, hLimit, -, hMembers, -⟩ := Json.Decoder.map_ok_iff.mp h
  have hNone : Entries.Distinct ([] : Inputs) ∧
      ∀ entry ∈ ([] : Inputs), entry.2.toJson.Plain ∧ entry.2.toJson.depth ≤ d := ⟨List.nodup_nil, nofun⟩
  have hRead : Entries.Distinct inputs ∧
      ∀ entry ∈ inputs, entry.2.toJson.Plain ∧ entry.2.toJson.depth ≤ d := by
    refine Json.members_induction (motive := fun inputs : Inputs => Entries.Distinct inputs ∧
      ∀ entry ∈ inputs, entry.2.toJson.Plain ∧ entry.2.toJson.depth ≤ d) ?_ hNone hMembers
    intro state name text next rest hState hNext
    obtain ⟨inside, tree, -, hTree, rfl⟩ := Json.Decoder.entry_ok_iff.mp hNext
    obtain ⟨json, hJson, hOf⟩ := InputTree.decoder_ok_iff.mp hTree
    obtain rfl := InputTree.toJson_of_ofJson? hOf
    refine ⟨hState.1.insert name tree, fun entry hEntry => ?_⟩
    rcases Entries.mem_of_mem_insert hEntry with rfl | hOld
    · exact ⟨Json.plain_of_value hJson, Json.depth_le_of_value hJson⟩
    · exact hState.2 entry hOld
  refine ⟨hRead.1, fun entry hEntry => (hRead.2 entry hEntry).1, ?_⟩
  rw [toJson, InputTree.fieldsToJson_eq_map, hLimit, Json.depth_object_le_iff, List.forall_mem_map]
  exact fun entry hEntry => (hRead.2 entry hEntry).2

theorem Writable.of_decodeDocument {text : Bytes} (h : Json.decodeDocument decoder text = .ok inputs) :
    Writable inputs := by
  obtain ⟨rest, hRead⟩ := Json.decodeDocument_eq_ok_iff.mp h
  exact .of_decoder hRead

variable {print : Json → String}

theorem Writable.decoder_append (h : Writable inputs) (hPrint : Json.Prints print) (rest : Bytes) :
    decoder Json.depthLimit (Bytes.ofString (print inputs.toJson) ++ rest) = .ok (inputs, rest) := by
  obtain ⟨form, hForm⟩ := hPrint.exists_form
  rw [hForm]
  exact decoder_text form 0 h.depth h.distinct h.plain rest

/-- The text is read to its end. -/
theorem Writable.decoder_print (h : Writable inputs) (hPrint : Json.Prints print) :
    decoder Json.depthLimit (Bytes.ofString (print inputs.toJson)) = .ok (inputs, []) := by
  have hRead := h.decoder_append hPrint []
  rwa [List.append_nil] at hRead

theorem Writable.decodeDocument_print (h : Writable inputs) (hPrint : Json.Prints print) :
    Json.decodeDocument decoder (Bytes.ofString (print inputs.toJson)) = .ok inputs :=
  Json.decodeDocument_eq_ok_iff.mpr ⟨[], h.decoder_print hPrint⟩

theorem rewrite_eq_ok_iff {text : Bytes} {printed : String} : rewrite print text = .ok printed ↔
    ∃ inputs, Json.decodeDocument decoder text = .ok inputs ∧ print inputs.toJson = printed :=
  map_eq_ok_iff

/-- In either form, inputs are read back from the text that they are written as, and inputs that have
been read from any text are written as one that is read as the same and is not changed by being read
and written again. -/
theorem written_readBack (hPrint : Json.Prints print) :
    (∀ inputs, Writable inputs →
      decoder Json.depthLimit (Bytes.ofString (print inputs.toJson)) = .ok (inputs, [])) ∧
    (∀ text inputs, Json.decodeDocument decoder text = .ok inputs →
      Json.decodeDocument decoder (Bytes.ofString (print inputs.toJson)) = .ok inputs) ∧
    ∀ text printed, rewrite print text = .ok printed →
      rewrite print (Bytes.ofString printed) = .ok printed := by
  have hAgain : ∀ text inputs, Json.decodeDocument decoder text = .ok inputs →
      Json.decodeDocument decoder (Bytes.ofString (print inputs.toJson)) = .ok inputs :=
    fun _ _ h => (Writable.of_decodeDocument h).decodeDocument_print hPrint
  refine ⟨fun _ h => h.decoder_print hPrint, hAgain, ?_⟩
  intro text printed h
  obtain ⟨inputs, hRead, rfl⟩ := rewrite_eq_ok_iff.mp h
  exact rewrite_eq_ok_iff.mpr ⟨inputs, hAgain text inputs hRead, rfl⟩

/-- A negative zero in a list, under a name with a quote. -/
def negativeZero : Inputs :=
  [("a\"", .list [.number ⟨true, ⟨⟨0, []⟩, fun _ => rfl⟩, none, none⟩])]

theorem decodeDocument_negativeZero :
    Json.decodeDocument decoder (Bytes.ofString "\x7b \"\\u0061\\u0022\" : [ -0 ]\x7d.") = .ok negativeZero := rfl

theorem written_readBack_negativeZero :
    decoder Json.depthLimit (Bytes.ofString negativeZero.toJson.pretty) = .ok (negativeZero, []) ∧
    Json.decodeDocument decoder (Bytes.ofString negativeZero.toJson.compact) = .ok negativeZero ∧
    rewrite Json.pretty (Bytes.ofString negativeZero.toJson.pretty) = .ok negativeZero.toJson.pretty := by
  have hRewrite : rewrite Json.pretty (Bytes.ofString "\x7b \"\\u0061\\u0022\" : [ -0 ]\x7d.") =
      .ok negativeZero.toJson.pretty := rfl
  exact ⟨(written_readBack (.inr rfl)).1 _ (.of_decodeDocument decodeDocument_negativeZero),
    (written_readBack (.inl rfl)).2.1 _ _ decodeDocument_negativeZero,
    (written_readBack (.inr rfl)).2.2 _ _ hRewrite⟩

end Inputs

end CircuitForm
