import CircuitForm.Proofs.Command.Saving
import CircuitForm.Proofs.Input.Canonical
import CircuitForm.Proofs.Input.Codec
import CircuitForm.Proofs.Input.RawText
import CircuitForm.Proofs.Session.Conformance

/-!
# Saved inputs

The inputs of a session are saved as an indented text, on a line of its own or in a file. Read back,
the text gives the same inputs; checked as a document it is valid and means them; and a session of
the same program that starts from them has them too. No bound on the nesting is needed, because a
parameter's type lies at least as deep in the document of its program as any of its values lies in
the text.
-/

namespace CircuitForm

namespace Inputs

variable {inputs : Inputs}

theorem decodeDocument_pretty (hDepth : inputs.toJson.depth ≤ Json.depthLimit)
    (hPlain : inputs.toJson.Plain) (pad : String) :
    Json.decodeDocument decoder (Bytes.ofString (inputs.toJson.pretty ++ pad)) = .ok inputs := by
  rw [Bytes.ofString_append]
  exact Json.decodeDocument_eq_ok_iff.mpr ⟨_, (Writable.of_plain hPlain hDepth).decoder_append (.inr rfl) _⟩

theorem ofText_pretty (hDepth : inputs.toJson.depth ≤ Json.depthLimit)
    (hPlain : inputs.toJson.Plain) {pad : String} (hPad : Json.Blank (Bytes.ofString pad)) :
    Json.ofText (Bytes.ofString (inputs.toJson.pretty ++ pad)) = .ok inputs.toJson := by
  rw [Bytes.ofString_append, Json.ofString_pretty]
  exact Json.prettyForm.ofText_append 0 hDepth hPlain hPad

theorem Fit.plain_toJson {program : Program} (h : inputs.Fit program.parameters)
    (hNames : program.DistinctNames) (hUnreserved : program.Unreserved) :
    inputs.toJson.depth ≤ (Descriptor.ofParameters program.parameters).depth ∧ inputs.toJson.Plain := by
  have hFits := fit_iff.mp h
  have hAccepted := (fits_iff_typecheck hNames.ofParameters).mp hFits
  exact plain_toJson_of_coerces hNames.ofParameters hUnreserved.ofParameters
    (hFits.distinctNames hNames.ofParameters) (coerces_of_typecheck hAccepted)

theorem Fit.synthesizeInputs_eq {program : Program} (h : inputs.Fit program.parameters)
    (hNames : program.DistinctNames) : synthesizeInputs program.parameters inputs = inputs := by
  have hTree := struct_synthesizeInputs program.parameters inputs
  rw [synthesize_of_fits hNames.ofParameters (fit_iff.mp h)] at hTree
  exact InputTree.struct.inj hTree

end Inputs

namespace Session

variable {registry : Registry} {s : Session}

/-- What a text has to be for the inputs of a session to be saved in it. -/
structure SavedIn (s : Session) (text : String) : Prop where
  read : ∀ (files : FileTree) path, files.read path = .ok (Bytes.ofString text) →
    (Command.readInputs path : Command.Action Inputs).run files = (.ok s.inputs, files)
  checked : ∃ document, Json.ofText (Bytes.ofString text) = .ok document ∧
    checkInputs s.program.parameters document = .ok s.inputs
  seeded : ∀ t : Session, t.program = s.program → (t.seed s.inputs).inputs = s.inputs
  /-- The file is found valid, by whatever registry and name the program is picked. -/
  accepted : ∀ registry program name, Command.pick registry program = .ok (name, s.program) →
    ∀ (files : FileTree) path, files.read path = .ok (Bytes.ofString text) → hasWildcards path = false →
    ∀ colour, ∃ report, (Command.run colour registry (.check program none none [path]) :
      Command.Action Report).run files = (.ok report, files) ∧ report.valid = true
  /-- A session that is started from the file has the same inputs. -/
  reopened : ∀ registry program name, Command.pick registry program = .ok (name, s.program) →
    ∀ (files : FileTree) path, files.read path = .ok (Bytes.ofString text) →
    ∃ t, (Command.openSession registry program (some path) : Command.Action Session).run files = (.ok t, files) ∧
      t.program = s.program ∧ t.inputs = s.inputs

theorem savedIn_append (hLoaded : registry.Loaded) (hNames : registry.DistinctNames)
    (hUnreserved : registry.Unreserved) (h : Reachable registry s) {pad : String}
    (hPad : Json.Blank (Bytes.ofString pad)) : SavedIn s ((Inputs.toJson s.inputs).pretty ++ pad) := by
  have hConforms := Conforms.of_reachable hNames h
  have hEntry := Entries.mem_of_lookup hConforms.selected
  have hProgramNames := hConforms.distinctNames hNames
  obtain ⟨hBelow, hPlain⟩ := hConforms.fit.plain_toJson hProgramNames (hUnreserved _ hEntry)
  have hDepth : (Inputs.toJson s.inputs).depth ≤ Json.depthLimit :=
    Nat.le_trans hBelow (Descriptor.depth_ofParameters_le (hLoaded.within hEntry))
  have hInputs := Inputs.decodeDocument_pretty hDepth hPlain pad
  have hDocument := Inputs.ofText_pretty hDepth hPlain hPad
  have hChecked := checkInputs_toJson hProgramNames hConforms.fit
  have hSeeded : ∀ t : Session, t.program = s.program → (t.seed s.inputs).inputs = s.inputs := by
    intro t hProgram
    rw [seed, hProgram]
    exact hConforms.fit.synthesizeInputs_eq hProgramNames
  refine ⟨fun files path hFile => ?_, ⟨_, hDocument, hChecked⟩, hSeeded, ?_, ?_⟩
  · exact Command.run_readInputs_eq_ok_iff.mpr ⟨rfl, _, hFile, hInputs⟩
  · intro registry program name hPick files path hFile hPath colour
    have hRun := Command.run_check hPick hPath hFile hDocument colour
    exact ⟨_, hRun, Command.valid_checkReport hChecked colour⟩
  · intro registry program name hPick files path hFile
    obtain ⟨first, hStart, hProgram⟩ := Command.exists_start_of_pick hPick
    refine ⟨first.seed s.inputs, Command.run_openSession_eq_ok_iff.mpr ?_, hProgram, hSeeded first hProgram⟩
    exact ⟨rfl, name, s.program, first, hPick, hStart, _, s.inputs, hFile, hInputs, rfl⟩

theorem savedIn_pretty (hLoaded : registry.Loaded) (hNames : registry.DistinctNames)
    (hUnreserved : registry.Unreserved) (h : Reachable registry s) :
    SavedIn s (Inputs.toJson s.inputs).pretty := by
  have hNone : Json.Blank (Bytes.ofString "") := nofun
  have hSaved := savedIn_append hLoaded hNames hUnreserved h hNone
  rwa [String.append_empty] at hSaved

/-- What an action does that saves the inputs of a session: if nothing is in the way it succeeds, and
then what is left is a text that they are saved in. -/
structure SavedBy (s : Session) (out : Option String) (files : FileTree) (action : Command.Action Report) : Prop where
  left : ∀ report after, action.run files = (.ok report, after) →
    ∃ text, Command.Leaves files s.inputs out text report after ∧ SavedIn s text
  done : Command.Clear files out → ∃ report after, action.run files = (.ok report, after)

theorem savedBy_writeInputs (hLoaded : registry.Loaded) (hNames : registry.DistinctNames)
    (hUnreserved : registry.Unreserved) (h : Reachable registry s) (out : Option String) (files : FileTree) :
    s.SavedBy out files (Command.writeInputs out s.inputs) := by
  refine ⟨fun report after hRun => ?_, fun hClear => Command.exists_run_writeInputs hClear s.inputs⟩
  obtain ⟨text, hLeaves⟩ := Command.leaves_writeInputs hRun
  refine ⟨text, hLeaves, ?_⟩
  cases hLeaves with
  | printed =>
    have hLine : Json.Blank (Bytes.ofString "\n") := List.forall_mem_singleton.mpr rfl
    exact savedIn_append hLoaded hNames hUnreserved h hLine
  | stored _ _ => exact savedIn_pretty hLoaded hNames hUnreserved h

/-- The inputs of a reachable session are saved in their text, and writing them leaves a text that
they are saved in. A command that saves inputs comes to such a session and writes its inputs, unless
its edit is rejected. -/
theorem saved_readBack (hLoaded : registry.Loaded) (hNames : registry.DistinctNames)
    (hUnreserved : registry.Unreserved) :
    (∀ s, Reachable registry s → SavedIn s (Inputs.toJson s.inputs).pretty ∧
      ∀ out files, s.SavedBy out files (Command.writeInputs out s.inputs)) ∧
    ∀ command out, Command.savesTo? command = some out → ∀ colour files,
      (∀ s, Command.Saves registry files command s →
        Reachable registry s ∧ s.SavedBy out files (Command.run colour registry command)) ∧
      ∀ report after,
        (Command.run colour registry command : Command.Action Report).run files = (.ok report, after) →
        (∃ s, Command.Saves registry files command s) ∨
        ∃ error, Command.Refuses registry files command error ∧ report = Command.refusal colour error ∧
          after = files := by
  have hWritten : ∀ s, Reachable registry s → ∀ out files,
      s.SavedBy out files (Command.writeInputs out s.inputs) :=
    fun s h => savedBy_writeInputs hLoaded hNames hUnreserved h
  refine ⟨fun s h => ⟨savedIn_pretty hLoaded hNames hUnreserved h, hWritten s h⟩, ?_⟩
  refine fun command out hOut colour files => ⟨fun s hSaves => ?_, ?_⟩
  · have hReachable := hSaves.reachable
    have hSavedBy := hWritten s hReachable out files
    refine ⟨hReachable, fun report after hRun => hSavedBy.left report after ?_, fun hClear => ?_⟩
    · rwa [← hSaves.run_eq hOut colour]
    · rw [hSaves.run_eq hOut colour]
      exact hSavedBy.done hClear
  · exact fun report after hRun => Command.saves_of_run hOut hRun

theorem unreserved_sampleRegistry : sampleRegistry.Unreserved := by
  intro entry hEntry
  obtain rfl := List.mem_singleton.mp hEntry
  simp [sampleProgram, Program.Unreserved, Descriptor.Unreserved, Descriptor.UnreservedFields,
    Descriptor.UnreservedEach, Json.reservedKey]

set_option maxRecDepth 20000 in
theorem loaded_sampleRegistry : sampleRegistry.Loaded := by
  have hDocument : Json.decodeDocument Registry.decoder
      (Bytes.ofString (Registry.toJson sampleRegistry).compact) = .ok sampleRegistry := by
    rw [Json.ofString_compact]
    with_unfolding_all rfl
  exact .together hDocument

/-- The sample with a number that is wider than a word and a text whose characters are escaped. -/
def edited : Session :=
  sample.run [.edit [.key "limit"] "18446744073709551616",
    .editValue [.key "owners", .index 1, .key "tag"] (.string "\"\n")]

theorem free_votes : (FileTree.mk []).Free "votes/first.json" := by
  have hNames : ∀ other ∈ ["votes"] ++ ["first.json"], Disk.IsName other := by
    unfold Disk.IsName
    decide
  refine .names hNames (fun front _ content => ?_) (by decide)
  rw [FileTree.node?]
  split <;> simp

set_option maxRecDepth 8000 in
theorem exists_saves_sample : ∃ s, Command.Saves sampleRegistry ⟨[]⟩
    (.set none none [.key "limit"] "3" (some "votes/first.json")) s ∧ s.program = sampleProgram := by
  have hChecked : check (.integer .unsigned 64) "3" = .ok (.number (.ofNat 3)) := by with_unfolding_all rfl
  have hType : typeAt sample.program.parameters [.key "limit"] = some (.integer .unsigned 64) := rfl
  have hConforms : Conforms sampleRegistry sample := .start distinctNames_sampleRegistry start_sample
  obtain ⟨inputs, -, hEdit⟩ := @Conforms.editBy_of_checked _ _ hConforms _ _ hType (checkedText "3") _ hChecked
  rw [← edit_eq_editBy] at hEdit
  refine ⟨_, .set (Command.run_openSession_eq_ok_iff.mpr ?_) hEdit, rfl⟩
  exact ⟨rfl, "vote", sampleProgram, sample, rfl, start_sample, rfl⟩

/-- The sample is edited and saved, and the file that this leaves is found valid. -/
theorem saved_readBack_edited :
    SavedIn edited (Inputs.toJson edited.inputs).pretty ∧
    ∃ report after checked, (Command.run false sampleRegistry
        (.set none none [.key "limit"] "3" (some "votes/first.json")) :
        Command.Action Report).run ⟨[]⟩ = (.ok report, after) ∧
      (Command.run false sampleRegistry (.check none none none ["votes/first.json"]) :
        Command.Action Report).run after = (.ok checked, after) ∧ checked.valid = true := by
  have hAll := saved_readBack loaded_sampleRegistry distinctNames_sampleRegistry unreserved_sampleRegistry
  obtain ⟨hSaved, -⟩ := hAll.1 edited ⟨"vote", sample, _, start_sample, rfl⟩
  obtain ⟨s, hSaves, hProgram⟩ := exists_saves_sample
  obtain ⟨-, hWritten⟩ := (hAll.2 _ _ rfl false _).1 s hSaves
  obtain ⟨report, after, hRun⟩ := hWritten.done fun _ h => Option.some.inj h ▸ free_votes
  obtain ⟨text, hLeaves, hText⟩ := hWritten.left report after hRun
  cases hLeaves with
  | stored hRead _ =>
    obtain ⟨checked, hChecked, hValid⟩ :=
      hText.accepted sampleRegistry none "vote" (hProgram ▸ rfl) after "votes/first.json" hRead (by decide) false
    exact ⟨hSaved, _, after, checked, hRun, hChecked, hValid⟩

end Session

end CircuitForm
