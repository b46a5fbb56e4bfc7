import CircuitForm.Command.Run
import CircuitForm.Proofs.Json.Reading
import CircuitForm.Proofs.Program.Loading

/-!
# The two readers of inputs

Inputs are read in one of two ways. One reader takes the members of an object one by one and makes
a tree of each; it stops behind the object. The other reads a whole text as data and makes a tree of
the value. They come to the same trees, but not for the same texts: the first does not mind what
follows the object, and the second does not mind a `null` that a later member replaces.
-/

namespace CircuitForm

open Json (Decoder)

namespace Json

mutual

/-- At no level is there a `null`. -/
def NullFree : Json → Prop
  | .null => False
  | .array items => NullFreeEach items
  | .object members => NullFreeMembers members
  | .bool _ | .number _ | .string _ => True

def NullFreeEach : List Json → Prop
  | [] => True
  | item :: rest => NullFree item ∧ NullFreeEach rest

def NullFreeMembers : List (String × Json) → Prop
  | [] => True
  | (_, item) :: rest => NullFree item ∧ NullFreeMembers rest

end

/-- The key with which an object at the front of a text begins. -/
def firstKey? (text : Bytes) : Option String :=
  match Scan.skipBlank text with
  | [] => none
  | b :: inside =>
    if b = Ascii.openBrace then
      match nextKey true inside with
      | .ok (found, _) => found
      | .error _ => none
    else
      none

theorem firstKey?_eq_head? {text inside after : Bytes} {keep : Keeping}
    {nested : Bytes → Except Fault (Json × Bytes)} {fuel : Nat} {entries : Entries Json}
    (hText : Scan.skipBlank text = Ascii.openBrace :: inside)
    (h : members (member keep nested) fuel true [] inside = .ok (entries, after)) :
    firstKey? text = entries.names.head? := by
  cases fuel with
  | zero => cases h
  | succ fuel =>
    obtain ⟨⟨found, behind⟩, hNext, hMore⟩ := bind_eq_ok_iff.mp h
    rw [firstKey?, hText]
    dsimp only
    rw [if_pos rfl, within_eq_ok_iff.mp hNext]
    cases found with
    | none =>
      cases hMore
      rfl
    | some name =>
      obtain ⟨⟨next, afterMember⟩, hMember, hRest⟩ := bind_eq_ok_iff.mp hMore
      exact (head?_names_of_members (head?_names_of_member hMember) hRest).symm

end Json

namespace InputTree

theorem fieldsOfJson?_eq_some_iff {members : Entries Json} {trees : Inputs} :
    fieldsOfJson? members = some trees ↔
      Entries.Aligned (fun json tree => ofJson? json = some tree) members trees := by
  induction members generalizing trees with
  | nil =>
    rw [fieldsOfJson?, Entries.Aligned, List.forall₂_nil_left_iff]
    exact ⟨fun h => (Option.some.inj h).symm, fun h => congrArg some h.symm⟩
  | cons member rest ih =>
    obtain ⟨name, json⟩ := member
    rw [fieldsOfJson?, Entries.Aligned, List.forall₂_cons_left_iff]
    simp only [Option.bind_eq_bind, Option.bind_eq_some_iff, Option.some.injEq]
    constructor
    · rintro ⟨tree, hTree, others, hOthers, rfl⟩
      exact ⟨(name, tree), others, ⟨rfl, hTree⟩, ih.mp hOthers, rfl⟩
    · rintro ⟨⟨_, tree⟩, others, ⟨rfl, hTree⟩, hOthers, rfl⟩
      exact ⟨tree, hTree, others, ih.mpr hOthers, rfl⟩

theorem fieldsOfJson?_ofList {members : Entries Json} {trees : Inputs}
    (h : fieldsOfJson? members = some trees) :
    fieldsOfJson? (Entries.ofList members) = some (Entries.ofList trees) :=
  fieldsOfJson?_eq_some_iff.mpr (fieldsOfJson?_eq_some_iff.mp h).ofList

/-- Only a `null` keeps a value from being a tree. -/
theorem isSome_ofJson?_iff {json : Json} : (ofJson? json).isSome ↔ json.NullFree := by
  induction json with
  | null => exact iff_of_false nofun id
  | bool _ | number _ | string _ => exact iff_of_true rfl trivial
  | array items ih =>
    have hItems : (itemsOfJson? items).isSome ↔ Json.NullFreeEach items := by
      induction items with
      | nil => exact iff_of_true rfl trivial
      | cons item rest ihRest =>
        rw [List.forall_mem_cons] at ih
        rw [itemsOfJson?, Json.NullFreeEach, ← ih.1, ← ihRest ih.2]
        cases ofJson? item <;> cases itemsOfJson? rest <;> simp
    rw [ofJson?, Option.isSome_map, Json.NullFree, hItems]
  | object members ih =>
    have hMembers : (fieldsOfJson? members).isSome ↔ Json.NullFreeMembers members := by
      induction members with
      | nil => exact iff_of_true rfl trivial
      | cons member rest ihRest =>
        obtain ⟨name, item⟩ := member
        rw [List.forall_mem_cons] at ih
        rw [fieldsOfJson?, Json.NullFreeMembers, ← ih.1, ← ihRest ih.2]
        cases ofJson? item <;> cases fieldsOfJson? rest <;> simp
    rw [ofJson?, Option.isSome_map, Json.NullFree, hMembers]

theorem ofJson?_object_eq_some_iff {members : Entries Json} {fields : Inputs} :
    ofJson? (.object members) = some (.struct fields) ↔ fieldsOfJson? members = some fields := by
  rw [ofJson?, Option.map_eq_some_iff]
  exact ⟨fun ⟨_, h, hSame⟩ => struct.inj hSame ▸ h, fun h => ⟨fields, h, rfl⟩⟩

theorem nullFree_object_iff {members : Entries Json} :
    (Json.object members).NullFree ↔ ∃ fields, fieldsOfJson? members = some fields := by
  rw [← isSome_ofJson?_iff, ofJson?, Option.isSome_map, Option.isSome_iff_exists]

theorem decoder_ok_iff {depth : Nat} {text rest : Bytes} {tree : InputTree} :
    decoder depth text = .ok (tree, rest) ↔
      ∃ json, Json.value .data depth text = .ok (json, rest) ∧ ofJson? json = some tree := by
  rw [decoder, bind_eq_ok_iff]
  constructor
  · rintro ⟨⟨json, after⟩, hJson, hTree⟩
    dsimp only at hTree
    split at hTree
    · rename_i found hFound
      cases hTree
      exact ⟨json, hJson, hFound⟩
    · cases hTree
  · rintro ⟨json, hJson, hTree⟩
    refine ⟨_, hJson, ?_⟩
    dsimp only
    rw [hTree]

end InputTree

namespace Command

variable {files : FileTree} {path : String}

theorem run_orFail_read {message : DiskFault → String} {document : Bytes}
    (hFile : files.read path = .ok document) :
    (orFail message (Disk.read path) : ExceptT String (StateM FileTree) Bytes).run files =
      (.ok document, files) := by
  have hRead : (Disk.read path : StateM FileTree _) files = (.ok document, files) :=
    congrArg (fun found => (found, files)) hFile
  rw [orFail, ExceptT.run_mk, FileTree.run_bind, hRead]
  rfl

theorem run_readInputs {document : Bytes} (hFile : files.read path = .ok document) :
    (readInputs path : ExceptT String (StateM FileTree) Inputs).run files =
      ((Json.decodeDocument Inputs.decoder document).mapError fun error =>
        "failed to parse inputs file " ++ path ++ ": " ++ error.text, files) := by
  rw [readInputs, ExceptT.run_bind, FileTree.run_bind, run_orFail_read hFile]
  dsimp only
  cases Json.decodeDocument Inputs.decoder document <;> rfl

theorem run_documentsIn {text : String} (hFile : files.read path = .ok (Bytes.ofString text)) :
    (documentsIn none none path : ExceptT String (StateM FileTree) (List (String × Json))).run files =
      (((Json.ofText (Bytes.ofString text)).mapError fun fault =>
        "failed to parse JSON source file (" ++ path ++ "): " ++ fault.message (Bytes.ofString text)).map
        fun json => [(path, json)], files) := by
  rw [documentsIn]
  dsimp only
  rw [ExceptT.run_bind, FileTree.run_bind, run_orFail_read hFile]
  dsimp only
  rw [Bytes.toString?_ofString, Option.isNone_some, if_neg Bool.false_ne_true]
  cases Json.ofText (Bytes.ofString text) <;> rfl

end Command

namespace Inputs

/-- The file is read as the inputs, to start from. -/
def ReadFrom (files : FileTree) (path : String) (inputs : Inputs) : Prop :=
  (Command.readInputs path : ExceptT String (StateM FileTree) Inputs).run files = (.ok inputs, files)

/-- To be checked, the file is read as an object without a `null` whose tree is the struct of the
inputs. -/
def CheckedIn (files : FileTree) (path : String) (inputs : Inputs) : Prop :=
  ∃ members, (Command.documentsIn none none path : ExceptT String (StateM FileTree) (List (String × Json))).run
      files = (.ok [(path, .object members)], files) ∧
    (Json.object members).NullFree ∧ InputTree.ofJson? (.object members) = some (.struct inputs)

variable {text : Bytes} {inputs : Inputs}

/-- The members with which a text begins as an object, each read as data, and what is behind it. -/
def OpensWith (text : Bytes) (members : Entries Json) (rest : Bytes) : Prop :=
  ∃ inside after, Json.Scan.skipBlank text = Ascii.openBrace :: inside ∧
    Json.members (Json.member .verbatim (Json.value .data (Json.depthLimit - 1))) (inside.length + 1) true []
      inside = .ok (members, after) ∧
    Json.endObject after = .ok rest

theorem OpensWith.unique {members others : Entries Json} {rest behind : Bytes} (h : OpensWith text members rest)
    (hOther : OpensWith text others behind) : members = others ∧ rest = behind := by
  obtain ⟨inside, after, hText, hMembers, hEnd⟩ := h
  obtain ⟨_, _, hSame, hOthers, hBehind⟩ := hOther
  cases hText.symm.trans hSame
  cases hMembers.symm.trans hOthers
  cases hEnd.symm.trans hBehind
  exact ⟨rfl, rfl⟩

theorem decodeDocument_eq_ok_iff : Json.decodeDocument decoder text = .ok inputs ↔ ∃ members rest trees,
    OpensWith text members rest ∧ InputTree.fieldsOfJson? members = some trees ∧
      inputs = Entries.ofList trees := by
  rw [Json.decodeDocument_eq_ok_iff]
  constructor
  · rintro ⟨rest, hRead⟩
    obtain ⟨d, inside, after, hDepth, hText, hEntries, hEnd⟩ := Decoder.map_ok_iff.mp hRead
    cases hDepth
    obtain ⟨members, trees, hMembers, hTrees, hInputs⟩ :=
      Decoder.written_of_entries (fun _ _ _ => InputTree.decoder_ok_iff.mp) hEntries
    exact ⟨members, rest, trees, ⟨inside, after, hText, hMembers, hEnd⟩,
      InputTree.fieldsOfJson?_eq_some_iff.mpr hTrees, hInputs⟩
  · rintro ⟨members, rest, trees, ⟨inside, after, hText, hMembers, hEnd⟩, hTrees, rfl⟩
    refine ⟨rest, Decoder.map_ok_iff.mpr ⟨_, inside, after, rfl, hText, ?_, hEnd⟩⟩
    refine Decoder.entries_of_written ?_ hMembers
    refine (InputTree.fieldsOfJson?_eq_some_iff.mp hTrees).imp fun member tree hTree => ⟨hTree.1, ?_⟩
    exact fun _ _ hJson => InputTree.decoder_ok_iff.mpr ⟨_, hJson, hTree.2⟩

/-- As data, an object has the last of its members under each name. -/
theorem ofText_eq_object_iff (hKey : Json.firstKey? text ≠ some Json.reservedKey) {entries : Entries Json} :
    Json.ofText text = .ok (.object entries) ↔ ∃ members rest,
      OpensWith text members rest ∧ Json.atEnd rest = .ok () ∧ entries = Entries.ofList members := by
  have hEntry : ∀ nested, Json.member .data nested = Decoder.entry nested := fun _ => rfl
  rw [Json.ofText_eq_ok_iff]
  constructor
  · rintro ⟨rest, hRead, hEnd⟩
    obtain ⟨d, inside, after, hDepth, hText, hEntries, -, hClose⟩ := Json.value_eq_object_iff.mp hRead
    cases hDepth
    rw [hEntry] at hEntries
    obtain ⟨members, values, hMembers, hValues, rfl⟩ :=
      Decoder.written_of_entries (fun _ json _ hJson => ⟨json, hJson, Eq.refl json⟩) hEntries
    rw [← Entries.Aligned.eq hValues]
    exact ⟨members, rest, ⟨inside, after, hText, hMembers, hClose⟩, hEnd, rfl⟩
  · rintro ⟨members, rest, ⟨inside, after, hText, hMembers, hClose⟩, hEnd, rfl⟩
    have hEntries := Decoder.entries_of_written
      (List.forall₂_same.mpr fun member _ => ⟨rfl, fun _ _ hJson => hJson⟩) hMembers
    rw [← hEntry] at hEntries
    refine ⟨rest, Json.value_eq_object_iff.mpr ?_, hEnd⟩
    refine ⟨_, inside, after, rfl, hText, hEntries, fun _ => ?_, hClose⟩
    rwa [← Json.firstKey?_eq_head? hText hEntries]

section Agreement

variable {files : FileTree} {path : String} {text : String}
  (hFile : files.read path = .ok (Bytes.ofString text))

include hFile

theorem readFrom_iff : ReadFrom files path inputs ↔ ∃ members rest trees,
    OpensWith (Bytes.ofString text) members rest ∧ InputTree.fieldsOfJson? members = some trees ∧
      inputs = Entries.ofList trees := by
  rw [ReadFrom, Command.run_readInputs hFile, ← decodeDocument_eq_ok_iff, ← mapError_eq_ok_iff]
  exact ⟨fun h => (Prod.mk.inj h).1, fun h => congrArg (·, files) h⟩

variable (hKey : Json.firstKey? (Bytes.ofString text) ≠ some Json.reservedKey)

include hKey

theorem checkedIn_iff : CheckedIn files path inputs ↔ ∃ members rest,
    OpensWith (Bytes.ofString text) members rest ∧ Json.atEnd rest = .ok () ∧
      InputTree.fieldsOfJson? (Entries.ofList members) = some inputs := by
  have hRun : ∀ members, (Command.documentsIn none none path :
      ExceptT String (StateM FileTree) (List (String × Json))).run files =
        (.ok [(path, .object members)], files) ↔
      Json.ofText (Bytes.ofString text) = .ok (.object members) := by
    intro members
    rw [Command.run_documentsIn hFile]
    cases Json.ofText (Bytes.ofString text) with
    | error _ => exact iff_of_false nofun nofun
    | ok json =>
      constructor
      · intro h
        cases (Prod.mk.inj h).1
        rfl
      · rintro ⟨⟩
        rfl
  constructor
  · rintro ⟨entries, hEntries, -, hTree⟩
    obtain ⟨members, rest, hOpens, hEnd, rfl⟩ := (ofText_eq_object_iff hKey).mp ((hRun entries).mp hEntries)
    exact ⟨members, rest, hOpens, hEnd, InputTree.ofJson?_object_eq_some_iff.mp hTree⟩
  · rintro ⟨members, rest, hOpens, hEnd, hFields⟩
    have hText := (ofText_eq_object_iff hKey).mpr ⟨members, rest, hOpens, hEnd, rfl⟩
    exact ⟨_, (hRun _).mpr hText, InputTree.nullFree_object_iff.mpr ⟨inputs, hFields⟩,
      InputTree.ofJson?_object_eq_some_iff.mpr hFields⟩

/-- What either reader makes of a file that both accept is the same. -/
theorem ReadFrom.eq_of_checkedIn {others : Inputs} (hRead : ReadFrom files path inputs)
    (hChecked : CheckedIn files path others) : inputs = others := by
  obtain ⟨members, rest, trees, hOpens, hTrees, rfl⟩ := (readFrom_iff hFile).mp hRead
  obtain ⟨_, _, hSame, -, hFields⟩ := (checkedIn_iff hFile hKey).mp hChecked
  obtain ⟨rfl, -⟩ := hOpens.unique hSame
  exact Option.some.inj ((InputTree.fieldsOfJson?_ofList hTrees).symm.trans hFields)

/-- The readers never come to different inputs. They agree on a file if, where it begins with an object
of no `null`, nothing follows the object, and where nothing follows it, no member with a `null` has
been replaced. -/
theorem readFrom_iff_checkedIn_iff :
    (∀ inputs others, ReadFrom files path inputs → CheckedIn files path others → inputs = others) ∧
    ((∀ inputs, ReadFrom files path inputs ↔ CheckedIn files path inputs) ↔
      ∀ members rest, OpensWith (Bytes.ofString text) members rest →
        ((Json.object members).NullFree → Json.atEnd rest = .ok ()) ∧
        (Json.atEnd rest = .ok () → (Json.object (Entries.ofList members)).NullFree →
          (Json.object members).NullFree)) := by
  refine ⟨fun _ _ => ReadFrom.eq_of_checkedIn hFile hKey, ?_⟩
  constructor
  · intro hAgree members rest hOpens
    constructor
    · intro hNull
      obtain ⟨trees, hTrees⟩ := InputTree.nullFree_object_iff.mp hNull
      have hChecked := (hAgree _).mp ((readFrom_iff hFile).mpr ⟨members, rest, trees, hOpens, hTrees, rfl⟩)
      obtain ⟨_, _, hSame, hEnd, -⟩ := (checkedIn_iff hFile hKey).mp hChecked
      exact (hOpens.unique hSame).2 ▸ hEnd
    · intro hEnd hNull
      obtain ⟨fields, hFields⟩ := InputTree.nullFree_object_iff.mp hNull
      have hRead := (hAgree _).mpr ((checkedIn_iff hFile hKey).mpr ⟨members, rest, hOpens, hEnd, hFields⟩)
      obtain ⟨_, _, trees, hSame, hTrees, -⟩ := (readFrom_iff hFile).mp hRead
      exact (hOpens.unique hSame).1 ▸ InputTree.nullFree_object_iff.mpr ⟨trees, hTrees⟩
  · intro hSettled inputs
    constructor
    · intro hRead
      obtain ⟨members, rest, trees, hOpens, hTrees, rfl⟩ := (readFrom_iff hFile).mp hRead
      have hEnd := (hSettled members rest hOpens).1 (InputTree.nullFree_object_iff.mpr ⟨trees, hTrees⟩)
      exact (checkedIn_iff hFile hKey).mpr
        ⟨members, rest, hOpens, hEnd, InputTree.fieldsOfJson?_ofList hTrees⟩
    · intro hChecked
      obtain ⟨members, rest, hOpens, hEnd, hFields⟩ := (checkedIn_iff hFile hKey).mp hChecked
      have hNull := (hSettled members rest hOpens).2 hEnd (InputTree.nullFree_object_iff.mpr ⟨inputs, hFields⟩)
      obtain ⟨trees, hTrees⟩ := InputTree.nullFree_object_iff.mp hNull
      have hSame := Option.some.inj (hFields.symm.trans (InputTree.fieldsOfJson?_ofList hTrees))
      exact (readFrom_iff hFile).mpr ⟨members, rest, trees, hOpens, hTrees, hSame⟩

end Agreement

def count : Inputs :=
  [("count", .number (.ofNat 3))]

def countText : String :=
  "\x7b\"count\": 3\x7d"

def countReplacing : String :=
  "\x7b\"count\": null, \"count\": 3\x7d"

/-- A directory with one file, whose name is one letter. -/
def only (text : String) : FileTree :=
  ⟨[(["f"], .file (Bytes.ofString text))]⟩

theorem read_only (text : String) : (only text).read "f" = .ok (Bytes.ofString text) := by
  have hSplit : Disk.split "f" = ["f"] := by decide
  have hAbsolute : Disk.isAbsolute "f" = false := by simp [Disk.isAbsolute]
  rw [FileTree.read, FileTree.find, FileTree.placeOf, hSplit, hAbsolute]
  rfl

theorem opensWith_countText : OpensWith (Bytes.ofString countText) [("count", .number (.ofNat 3))] [] := by
  refine ⟨Bytes.ofString "\"count\": 3\x7d", Bytes.ofString "\x7d", ?_, ?_, ?_⟩ <;> with_unfolding_all rfl

theorem readFrom_iff_checkedIn_count :
    (only countText).read "f" = .ok (Bytes.ofString countText) ∧
      Json.firstKey? (Bytes.ofString countText) ≠ some Json.reservedKey ∧
      ∀ inputs, ReadFrom (only countText) "f" inputs ↔ CheckedIn (only countText) "f" inputs := by
  have hFile := read_only countText
  have hKey : Json.firstKey? (Bytes.ofString countText) ≠ some Json.reservedKey := by decide
  refine ⟨hFile, hKey, (readFrom_iff_checkedIn_iff hFile hKey).2.mpr fun members rest hOpens => ?_⟩
  obtain ⟨rfl, rfl⟩ := opensWith_countText.unique hOpens
  exact ⟨fun _ => rfl, fun _ h => h⟩

/-- Letters behind the object are passed over by one reader, a `null` that is replaced by the other. -/
theorem not_readFrom_iff_checkedIn_count :
    (Json.firstKey? (Bytes.ofString (countText ++ " more")) = some "count" ∧
      ReadFrom (only (countText ++ " more")) "f" count ∧ ¬ CheckedIn (only (countText ++ " more")) "f" count) ∧
    (Json.firstKey? (Bytes.ofString countReplacing) = some "count" ∧
      ¬ ReadFrom (only countReplacing) "f" count ∧ CheckedIn (only countReplacing) "f" count) := by
  refine ⟨⟨by decide, ?_, ?_⟩, by decide, ?_, ?_⟩
  · rw [ReadFrom, Command.run_readInputs (read_only _)]
    with_unfolding_all rfl
  · rintro ⟨members, hRun, -⟩
    rw [Command.run_documentsIn (read_only _)] at hRun
    cases (Prod.mk.inj hRun).1
  · intro hRun
    rw [ReadFrom, Command.run_readInputs (read_only _)] at hRun
    cases (Prod.mk.inj hRun).1
  · refine ⟨[("count", .number (.ofNat 3))], ?_, ⟨trivial, trivial⟩, rfl⟩
    rw [Command.run_documentsIn (read_only _)]
    with_unfolding_all rfl

end Inputs

end CircuitForm
