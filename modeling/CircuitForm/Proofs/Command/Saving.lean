import CircuitForm.Command.Run
import CircuitForm.Proofs.Disk.Directories
import CircuitForm.Proofs.Input.Readers
import CircuitForm.Proofs.Session.Effect

/-!
# Commands that save inputs

`template` starts a session and `set` makes an edit in one. Either then prints the inputs or puts them
into a file, which changes no other file. The session is reachable, also if it starts from inputs that
are read from a file.
-/

namespace CircuitForm

namespace Command

open FileTree (Extends)

/-- What may read and change a tree of files, or fail with a message. -/
abbrev Action (α : Type) :=
  ExceptT String (StateM FileTree) α

section Actions

variable {α β ε : Type} {files after : FileTree} {a : α} {b : β}

theorem run_orFail (message : ε → String) (action : StateM FileTree (Except ε α)) (files : FileTree) :
    (orFail message action : Action α).run files = ((action files).1.mapError message, (action files).2) := rfl

theorem run_orFail_eq_ok_iff {message : ε → String} {action : StateM FileTree (Except ε α)} :
    (orFail message action : Action α).run files = (.ok a, after) ↔ action files = (.ok a, after) := by
  rw [run_orFail, Prod.mk.injEq, mapError_eq_ok_iff, Prod.ext_iff]

theorem run_bind_eq_ok_iff {action : Action α} {next : α → Action β} :
    (action >>= next).run files = (.ok b, after) ↔ ∃ a between, action.run files = (.ok a, between) ∧
      (next a).run between = (.ok b, after) := by
  rw [ExceptT.run_bind, FileTree.run_bind]
  generalize action.run files = result
  obtain ⟨error | found, between⟩ := result
  · refine iff_of_false nofun ?_
    rintro ⟨_, _, ⟨⟩, -⟩
  · constructor
    · exact fun h => ⟨found, between, rfl, h⟩
    · rintro ⟨_, _, ⟨⟩, h⟩
      exact h

theorem run_liftM_eq_ok_iff {result : Except String α} :
    (liftM result : Action α).run files = (.ok a, after) ↔ result = .ok a ∧ after = files := by
  constructor
  · intro h
    cases h
    exact ⟨rfl, rfl⟩
  · rintro ⟨rfl, rfl⟩
    rfl

theorem run_pure_eq_ok_iff {found : α} :
    (pure found : Action α).run files = (.ok a, after) ↔ found = a ∧ after = files := by
  constructor
  · intro h
    cases h
    exact ⟨rfl, rfl⟩
  · rintro ⟨rfl, rfl⟩
    rfl

end Actions

variable {files after : FileTree} {registry : Registry} {inputs : Inputs} {out : Option String}

/-- What is left of inputs that have been saved: a text that is printed, or one in a file. -/
inductive Leaves (files : FileTree) (inputs : Inputs) :
    Option String → String → Report → FileTree → Prop where
  | printed : Leaves files inputs none (inputs.toJson.pretty ++ "\n")
      (.ofOutput (inputs.toJson.pretty ++ "\n")) files
  | stored {path : String} {after : FileTree}
      (hRead : after.read path = .ok (Bytes.ofString inputs.toJson.pretty))
      (hOthers : ∀ other content, files.read other = .ok content →
        after.read other = .ok content ∨ after.placeOf other = after.placeOf path) :
      Leaves files inputs (some path) inputs.toJson.pretty (.ofOutput "") after

/-- Where a file can be put, or none is wanted. -/
def Clear (files : FileTree) (out : Option String) : Prop :=
  ∀ path, out = some path → files.Free path

theorem run_write_eq_ok_iff {message : DiskFault → String} {path : String} {content : Bytes} {report found : Report} :
    (do orFail message (Disk.write path content); pure found : Action Report).run files = (.ok report, after) ↔
      found = report ∧ files.write path content = .ok after := by
  have hUpdate : (Disk.write path content : StateM FileTree (Except DiskFault Unit)) files = (.ok (), after) ↔
      files.write path content = .ok after := by
    change FileTree.update (·.write path content) files = _ ↔ _
    rw [FileTree.update, Prod.ext_iff]
    cases files.write path content <;> simp
  rw [run_bind_eq_ok_iff]
  constructor
  · rintro ⟨⟨⟩, between, hWrite, hReport⟩
    obtain ⟨rfl, rfl⟩ := run_pure_eq_ok_iff.mp hReport
    exact ⟨rfl, hUpdate.mp (run_orFail_eq_ok_iff.mp hWrite)⟩
  · rintro ⟨rfl, hWrite⟩
    exact ⟨(), after, run_orFail_eq_ok_iff.mpr (hUpdate.mpr hWrite), rfl⟩

theorem run_writeInputs_eq_ok_iff {path : String} {report : Report} :
    (writeInputs (some path) inputs : Action Report).run files = (.ok report, after) ↔
      .ofOutput "" = report ∧ ∃ made, made.write path (Bytes.ofString inputs.toJson.pretty) = .ok after ∧
        match Disk.parent? path with
        | some parent => (Disk.makeDirectories parent : StateM FileTree (Except DiskFault Unit)) files = (.ok (), made)
        | none => made = files := by
  rw [writeInputs]
  dsimp only
  cases Disk.parent? path with
  | some parent =>
    dsimp only
    rw [run_bind_eq_ok_iff]
    constructor
    · rintro ⟨⟨⟩, made, hMade, hWrite⟩
      obtain ⟨hReport, hAfter⟩ := run_write_eq_ok_iff.mp hWrite
      exact ⟨hReport, made, hAfter, run_orFail_eq_ok_iff.mp hMade⟩
    · rintro ⟨hReport, made, hAfter, hMade⟩
      exact ⟨(), made, run_orFail_eq_ok_iff.mpr hMade, run_write_eq_ok_iff.mpr ⟨hReport, hAfter⟩⟩
  | none =>
    dsimp only
    rw [run_write_eq_ok_iff, exists_eq_right]

theorem leaves_writeInputs {report : Report}
    (hRun : (writeInputs out inputs : Action Report).run files = (.ok report, after)) :
    ∃ text, Leaves files inputs out text report after := by
  cases out with
  | none =>
    cases hRun
    exact ⟨_, .printed⟩
  | some path =>
    obtain ⟨rfl, made, hWrite, hMade⟩ := run_writeInputs_eq_ok_iff.mp hRun
    have hExtends : Extends files made := by
      split at hMade
      · rename_i parent _
        have hAll := FileTree.extends_makeAll (Disk.isAbsolute parent) (Disk.components parent).reverse files
        rw [Disk.makeDirectories] at hMade
        rwa [hMade] at hAll
      · exact hMade ▸ .refl files
    refine ⟨_, .stored (FileTree.read_write hWrite) fun other content hFile => ?_⟩
    exact FileTree.read_of_write hWrite (hExtends.read hFile)

theorem exists_run_writeInputs (hClear : Clear files out) (inputs : Inputs) :
    ∃ report after, (writeInputs out inputs : Action Report).run files = (.ok report, after) := by
  cases out with
  | none => exact ⟨_, files, rfl⟩
  | some path =>
    obtain ⟨parent, made, after, hParent, hMade, hWrite⟩ :=
      (hClear path rfl).exists_write (Bytes.ofString inputs.toJson.pretty)
    refine ⟨.ofOutput "", after, run_writeInputs_eq_ok_iff.mpr ⟨rfl, made, hWrite, ?_⟩⟩
    rwa [hParent]

theorem lookup_of_pick {program : Option String} {name : String} {found : Program}
    (h : pick registry program = .ok (name, found)) : registry.lookup name = some found := by
  cases program with
  | none =>
    cases registry with
    | nil => cases h
    | cons entry rest =>
      cases h
      exact List.lookup_cons_self
  | some requested =>
    rw [pick] at h
    split at h
    · rename_i program hLookup
      cases h
      exact hLookup
    · cases h

theorem exists_start_of_pick {program : Option String} {name : String} {found : Program}
    (h : pick registry program = .ok (name, found)) :
    ∃ s, Session.start registry name = .ok s ∧ s.program = found := by
  rw [Session.start, Registry.resolve, lookup_of_pick h]
  exact ⟨_, rfl, rfl⟩

theorem run_readInputs_eq_ok_iff {path : String} :
    (readInputs path : Action Inputs).run files = (.ok inputs, after) ↔
      after = files ∧ ∃ text, files.read path = .ok text ∧
        Json.decodeDocument Inputs.decoder text = .ok inputs := by
  have hRead : (Disk.read path : StateM FileTree (Except DiskFault Bytes)) files = (files.read path, files) := rfl
  cases hFile : files.read path with
  | error fault =>
    rw [readInputs, run_bind_eq_ok_iff]
    refine iff_of_false ?_ (by rintro ⟨-, _, ⟨⟩, -⟩)
    rintro ⟨_, _, hText, -⟩
    rw [run_orFail_eq_ok_iff, hRead, hFile] at hText
    cases hText
  | ok text =>
    rw [run_readInputs hFile, Prod.mk.injEq, mapError_eq_ok_iff]
    constructor
    · rintro ⟨hInputs, rfl⟩
      exact ⟨rfl, text, rfl, hInputs⟩
    · rintro ⟨rfl, _, ⟨⟩, hInputs⟩
      exact ⟨hInputs, rfl⟩

theorem run_openSession_eq_ok_iff {program file : Option String} {s : Session} :
    (openSession registry program file : Action Session).run files = (.ok s, after) ↔ after = files ∧
      ∃ name found first, pick registry program = .ok (name, found) ∧ Session.start registry name = .ok first ∧
        match file with
        | none => first = s
        | some file => ∃ text previous, files.read file = .ok text ∧
            Json.decodeDocument Inputs.decoder text = .ok previous ∧ first.seed previous = s := by
  rw [openSession, run_bind_eq_ok_iff]
  constructor
  · rintro ⟨⟨name, found⟩, between, hProgram, hRun⟩
    obtain ⟨hPick, rfl⟩ := run_liftM_eq_ok_iff.mp hProgram
    dsimp only at hRun
    split at hRun
    · cases hRun
    · rename_i first hStart
      obtain ⟨rfl, rfl⟩ := run_pure_eq_ok_iff.mp hRun
      exact ⟨rfl, name, found, first, hPick, hStart, rfl⟩
    · rename_i first file hStart
      obtain ⟨previous, between, hRead, hSeed⟩ := run_bind_eq_ok_iff.mp hRun
      obtain ⟨rfl, text, hText, hPrevious⟩ := run_readInputs_eq_ok_iff.mp hRead
      obtain ⟨rfl, rfl⟩ := run_pure_eq_ok_iff.mp hSeed
      exact ⟨rfl, name, found, first, hPick, hStart, text, previous, hText, hPrevious, rfl⟩
  · rintro ⟨rfl, name, found, first, hPick, hStart, hFile⟩
    refine ⟨(name, found), _, run_liftM_eq_ok_iff.mpr ⟨hPick, rfl⟩, ?_⟩
    dsimp only
    rw [hStart]
    cases file with
    | none =>
      obtain rfl := hFile
      rfl
    | some file =>
      obtain ⟨text, previous, hText, hPrevious, rfl⟩ := hFile
      refine run_bind_eq_ok_iff.mpr ⟨previous, _, ?_, rfl⟩
      exact run_readInputs_eq_ok_iff.mpr ⟨rfl, text, hText, hPrevious⟩

theorem reachable_openSession {program file : Option String} {s : Session}
    (h : (openSession registry program file : Action Session).run files = (.ok s, after)) :
    Session.Reachable registry s := by
  obtain ⟨-, name, found, first, -, hStart, hFile⟩ := run_openSession_eq_ok_iff.mp h
  cases file with
  | none => exact ⟨name, first, [], hStart, hFile.symm⟩
  | some file =>
    obtain ⟨text, previous, -, -, hSeed⟩ := hFile
    exact ⟨name, first, [.seed previous], hStart, hSeed.symm⟩

/-- Where a command that saves inputs saves them. -/
def savesTo? : Command → Option (Option String)
  | .template _ _ out | .set _ _ _ _ out => some out
  | .programs | .describe _ _ | .check _ _ _ _ => none

/-- The session whose inputs a command saves. -/
inductive Saves (registry : Registry) (files : FileTree) : Command → Session → Prop where
  | template {program previous out : Option String} {s : Session}
      (hOpen : (openSession registry program previous : Action Session).run files = (.ok s, files)) :
      Saves registry files (.template program previous out) s
  | set {program input out : Option String} {path : Path} {value : String} {first s : Session}
      (hOpen : (openSession registry program input : Action Session).run files = (.ok first, files))
      (hEdit : first.edit path value = (.ok .committed, s)) :
      Saves registry files (.set program input path value out) s

/-- A command whose edit is rejected. -/
inductive Refuses (registry : Registry) (files : FileTree) : Command → InputError → Prop where
  | set {program input out : Option String} {path : Path} {value : String} {first : Session} {error : InputError}
      (hOpen : (openSession registry program input : Action Session).run files = (.ok first, files))
      (hEdit : (first.edit path value).1 = .ok (.rejected error)) :
      Refuses registry files (.set program input path value out) error

/-- A rejected edit is reported, and nothing is saved. -/
def refusal (colour : Bool) (error : InputError) : Report :=
  ⟨"", joinLines [Style.boldRed.paint colour "rejected" ++ " " ++ errorLine colour error], false⟩

variable {command : Command} {s : Session}

theorem Saves.reachable (h : Saves registry files command s) : Session.Reachable registry s := by
  cases h with
  | template hOpen => exact reachable_openSession hOpen
  | @set _ _ _ path value first _ hOpen hEdit =>
    obtain ⟨name, start, operations, hStart, rfl⟩ := reachable_openSession hOpen
    refine ⟨name, start, operations ++ [.edit path value], hStart, ?_⟩
    rw [Session.run_concat, Session.step, hEdit]
    rfl

theorem Saves.run_eq (h : Saves registry files command s) (hOut : command.savesTo? = some out) (colour : Bool) :
    (run colour registry command : Action Report).run files = (writeInputs out s.inputs : Action Report).run files := by
  cases h with
  | template hOpen =>
    cases hOut
    rw [run, ExceptT.run_bind, FileTree.run_bind, hOpen]
  | set hOpen hEdit =>
    cases hOut
    rw [run, ExceptT.run_bind, FileTree.run_bind, hOpen]
    dsimp only
    rw [hEdit]

/-- A command that saves inputs does so, unless it reports that its edit is rejected. -/
theorem saves_of_run (hOut : command.savesTo? = some out) {colour : Bool} {report : Report}
    (hRun : (run colour registry command : Action Report).run files = (.ok report, after)) :
    (∃ s, Saves registry files command s) ∨
      ∃ error, Refuses registry files command error ∧ report = refusal colour error ∧ after = files := by
  cases command with
  | programs | describe _ _ | check _ _ _ _ => cases hOut
  | template program previous out =>
    obtain ⟨s, between, hOpen, -⟩ := run_bind_eq_ok_iff.mp hRun
    obtain ⟨rfl, -⟩ := run_openSession_eq_ok_iff.mp hOpen
    exact .inl ⟨s, .template hOpen⟩
  | set program input path value out =>
    obtain ⟨first, between, hOpen, hEdited⟩ := run_bind_eq_ok_iff.mp hRun
    obtain ⟨rfl, -⟩ := run_openSession_eq_ok_iff.mp hOpen
    split at hEdited
    · cases hEdited
    · rename_i s hEdit
      exact .inl ⟨s, .set hOpen hEdit⟩
    · rename_i error s hEdit
      obtain ⟨rfl, rfl⟩ := run_pure_eq_ok_iff.mp hEdited
      exact .inr ⟨error, .set hOpen (congrArg Prod.fst hEdit), rfl, rfl⟩

/-- A file name without wildcards stands for itself, and the document in the file is checked. -/
theorem run_check {program : Option String} {name path text : String} {found : Program} {document : Json}
    (hPick : pick registry program = .ok (name, found)) (hPath : hasWildcards path = false)
    (hFile : files.read path = .ok (Bytes.ofString text))
    (hText : Json.ofText (Bytes.ofString text) = .ok document) (colour : Bool) :
    (run colour registry (.check program none none [path]) : Action Report).run files =
      (.ok (checkReport colour found.parameters [(path, document)]), files) := by
  have hResolved : (resolvePatterns [path] : StateM FileTree (Except LoadError (List String))) files =
      (.ok [path], files) := by
    rw [resolvePatterns, resolvePattern, if_neg (by simp [hPath])]
    rfl
  have hDocument : (documentsIn none none path : Action (List (String × Json))).run files =
      (.ok [(path, document)], files) := by
    rw [run_documentsIn hFile, hText]
    rfl
  have hDocuments : (documentsInAll none none [path] : Action (List (String × Json))).run files =
      (.ok [(path, document)], files) :=
    run_bind_eq_ok_iff.mpr ⟨_, files, hDocument, rfl⟩
  refine run_bind_eq_ok_iff.mpr ⟨(name, found), files, run_liftM_eq_ok_iff.mpr ⟨hPick, rfl⟩, ?_⟩
  refine run_bind_eq_ok_iff.mpr ⟨[path], files, run_orFail_eq_ok_iff.mpr hResolved, ?_⟩
  exact run_bind_eq_ok_iff.mpr ⟨_, files, hDocuments, rfl⟩

theorem valid_checkReport {parameters : List Parameter} {label : String} {document : Json}
    (h : checkInputs parameters document = .ok inputs) (colour : Bool) :
    (checkReport colour parameters [(label, document)]).valid = true := by
  simp [checkReport, checkLines, h]

end Command

end CircuitForm
