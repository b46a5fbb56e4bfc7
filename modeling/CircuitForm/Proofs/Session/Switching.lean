import CircuitForm.Proofs.Input.CarryForward
import CircuitForm.Proofs.Session.Conformance
import CircuitForm.Proofs.Session.Independence

/-!
# Values carried from program to program

A selection builds all inputs anew, and at each path from what stood there before. So a value is
kept over any number of selections, however the composites above it change, as long as it is
valid as it stands for the scalar that each selected program declares at its path. The first
program for which it is not valid has its own default there.
-/

namespace CircuitForm

/-- The value is valid as it stands for a scalar that the program declares at the path. -/
def Program.Admits (program : Program) (path : Path) (value : InputTree) : Prop :=
  ∃ leaf, typeAt program.parameters path = some leaf ∧ leaf.isScalar = true ∧
    typecheck leaf (.ofTree value) = .ok value

namespace Session

theorem Conforms.at?_select {registry : Registry} {s : Session} (h : Conforms registry s)
    (hNames : registry.DistinctNames) (requested : String) (path : Path) :
    (s.select requested).2.inputs.at? path =
      (typeAt (s.select requested).2.program.parameters path).map fun declared =>
        synthesize declared (s.inputs.at? path) := by
  have hSelected : registry.resolve s.name = some (s.name, s.program) := by
    rw [Registry.resolve, h.selected]
  obtain ⟨⟨name, program⟩, hResolve⟩ := Registry.exists_resolve hSelected requested
  have hProgram : program.DistinctNames :=
    hNames (name, program) (Entries.mem_of_lookup (Registry.lookup_of_resolve hResolve))
  rw [select, h.registry_eq, hResolve]
  exact at?_synthesizeInputs hProgram s.inputs path

/-- A selection, or an operation that leaves what is at the path alone. -/
def Transition.Retains (t : Transition) (path : Path) : Prop :=
  (∃ name, t.operation = .select name) ∨ ∀ event, t.event? = some event → event.Spares path

section

variable {registry : Registry} {s : Session} {path : Path} {value : InputTree}

/-- A selection keeps the value, or puts the default of the declared scalar in its place. -/
theorem at?_select_of_scalar (h : Conforms registry s) (hNames : registry.DistinctNames)
    (hValue : s.inputs.at? path = some value) (name : String) {leaf : Descriptor}
    (hLeaf : typeAt (s.select name).2.program.parameters path = some leaf)
    (hScalar : leaf.isScalar = true) :
    (s.select name).2.inputs.at? path = some (carriedOrDefault leaf (some value)) := by
  rw [h.at?_select hNames, hLeaf, hValue, Option.map_some, synthesize_scalar hScalar]

theorem at?_target_of_admitted (h : Conforms registry s) (hNames : registry.DistinctNames)
    (hValue : s.inputs.at? path = some value) {operation : Operation}
    (hRetains : Transition.Retains ⟨s, operation⟩ path)
    (hAdmits : ∀ name, operation = .select name → (s.step operation).2.program.Admits path value) :
    (s.step operation).2.inputs.at? path = some value := by
  rcases hRetains with ⟨name, hSelect⟩ | hSpares
  · cases hSelect
    obtain ⟨leaf, hLeaf, hScalar, hValid⟩ := hAdmits name rfl
    have hNode := at?_select_of_scalar h hNames hValue name hLeaf hScalar
    rwa [(carriedOrDefault_eq hScalar value).1 hValid] at hNode
  · exact (target_of_spares hSpares).2.trans hValue

theorem at?_run_of_admitted (h : Conforms registry s) (hNames : registry.DistinctNames)
    (hValue : s.inputs.at? path = some value) {operations : List Operation}
    (hRetains : ∀ t ∈ s.history operations, t.Retains path)
    (hAdmits : ∀ t ∈ s.history operations, ∀ name, t.operation = .select name →
      t.target.program.Admits path value) : (s.run operations).inputs.at? path = some value := by
  induction operations generalizing s with
  | nil => exact hValue
  | cons operation rest ih =>
    obtain ⟨hFirst, hRest⟩ := List.forall_mem_cons.mp hRetains
    obtain ⟨hFirstAdmits, hRestAdmits⟩ := List.forall_mem_cons.mp hAdmits
    have hNext := at?_target_of_admitted h hNames hValue hFirst hFirstAdmits
    exact ih (h.step hNames operation) hNext hRest hRestAdmits

end

/-- A value is kept over all selections of programs for which it is valid as it stands; a selection
of the first for which it is not puts the default of that program's scalar in its place. -/
theorem carried_history {registry : Registry} (hNames : registry.DistinctNames) {s : Session}
    (h : Reachable registry s) {path : Path} {value : InputTree}
    (hValue : s.inputs.at? path = some value) {operations : List Operation}
    (hRetains : ∀ t ∈ s.history operations, t.Retains path)
    (hAdmits : ∀ t ∈ s.history operations, ∀ name, t.operation = .select name →
      t.target.program.Admits path value) :
    (s.run operations).inputs.at? path = some value ∧
    ∀ name leaf, typeAt ((s.run operations).select name).2.program.parameters path = some leaf →
      leaf.isScalar = true → typecheck leaf (.ofTree value) ≠ .ok value →
        ∃ initial, ((s.run operations).select name).2.inputs.at? path = some initial ∧ IsDefault leaf initial := by
  have hConforms := Conforms.of_reachable hNames h
  have hKept := at?_run_of_admitted hConforms hNames hValue hRetains hAdmits
  refine ⟨hKept, ?_⟩
  intro name leaf hLeaf hScalar hInvalid
  have hEnd : Conforms registry (s.run operations) :=
    run_induction hConforms (fun _ operation hBefore => hBefore.step hNames operation) operations
  refine ⟨scalarDefault leaf, ?_, isDefault_scalarDefault hScalar⟩
  rw [at?_select_of_scalar hEnd hNames hKept name hLeaf hScalar,
    (carriedOrDefault_eq hScalar value).2 hInvalid]

def countProgram : Program where
  version := none
  hash := none
  parameters := [
    ⟨"owners", .tuple [.struct "Owner" [("share", .array 2 .field), ("tag", .string 3)], .boolean], none⟩,
    ⟨"limit", .field, none⟩]
  returnType := none
  bytecode := ""

def auditProgram : Program where
  version := none
  hash := none
  parameters := [⟨"owners", .array 1 (.struct "Share" [("share", .tuple [.boolean])]), none⟩]
  returnType := none
  bytecode := ""

def ledgerProgram : Program where
  version := none
  hash := none
  parameters := [⟨"owners", .tuple [.struct "Entry" [("share", .array 1 (.string 3))]], none⟩]
  returnType := none
  bytecode := ""

def pollRegistry : Registry :=
  [("vote", sampleProgram), ("count", countProgram), ("audit", auditProgram), ("ledger", ledgerProgram)]

theorem distinctNames_pollRegistry : pollRegistry.DistinctNames := by
  simp [pollRegistry, Registry.DistinctNames, Program.DistinctNames, sampleProgram, countProgram,
    auditProgram, ledgerProgram, Descriptor.DistinctNames, Descriptor.DistinctNamesFields,
    Descriptor.DistinctNamesEach, Entries.Distinct]

def firstShare : Path :=
  [.key "owners", .index 0, .key "share", .index 0]

def minusSeven : InputTree :=
  .number ⟨true, WholeDigits.ofNat 7, none, none⟩

def poll : Session where
  registry := pollRegistry
  name := "vote"
  program := sampleProgram
  inputs := synthesizeInputs sampleProgram.parameters []
  invalid := .empty
  artifacts := {}
  revision := 0

def pollShared : Session :=
  poll.run [.editValue firstShare minusSeven]

theorem reachable_pollShared : Reachable pollRegistry pollShared :=
  ⟨"vote", poll, [.editValue firstShare minusSeven], rfl, rfl⟩

/-- Counting declares a tuple for the owners and an array for the share, voting the reverse. -/
def pollMoves : List Operation :=
  [.select "count", .editValue [.key "limit"] minusSeven, .editValue firstShare (.boolean true),
    .requestExecution, .select "vote"]

theorem carried_poll :
    (pollShared.run pollMoves).inputs.at? firstShare = some minusSeven ∧
      ((pollShared.run pollMoves).select "audit").2.inputs.at? firstShare = some (.boolean false) ∧
      ((pollShared.run pollMoves).select "ledger").2.inputs.at? firstShare = some (.string "***") := by
  have hRetains : ∀ t ∈ pollShared.history pollMoves, t.Retains firstShare := by
    simp only [pollMoves, history, List.forall_mem_cons]
    refine ⟨.inl ⟨_, rfl⟩, .inr ?_, .inr ?_, .inr ?_, .inl ⟨_, rfl⟩, by simp⟩
    · rintro event ⟨⟩
      have hApart : Path.Apart [.key "limit"] firstShare := by decide
      exact hApart
    · rintro event ⟨⟩
      trivial
    · rintro event ⟨⟩
  have hAdmits : ∀ t ∈ pollShared.history pollMoves, ∀ name, t.operation = .select name →
      t.target.program.Admits firstShare minusSeven := by
    simp only [pollMoves, history, List.forall_mem_cons]
    refine ⟨?_, ?_, ?_, ?_, ?_, by simp⟩
    · rintro name -
      exact ⟨.field, rfl, rfl, rfl⟩
    · rintro name ⟨⟩
    · rintro name ⟨⟩
    · rintro name ⟨⟩
    · rintro name -
      exact ⟨.field, rfl, rfl, rfl⟩
  obtain ⟨hKept, hReplaced⟩ :=
    carried_history distinctNames_pollRegistry reachable_pollShared rfl hRetains hAdmits
  have hNoTruth : typecheck .boolean (.ofTree minusSeven) ≠ .ok minusSeven := by
    intro hValid
    cases hValid
  have hNoText : typecheck (.string 3) (.ofTree minusSeven) ≠ .ok minusSeven := by
    intro hValid
    cases hValid
  obtain ⟨truth, hTruth, hFalse⟩ := hReplaced "audit" .boolean rfl rfl hNoTruth
  obtain ⟨text, hText, hStars⟩ := hReplaced "ledger" (.string 3) rfl rfl hNoText
  cases hFalse
  cases hStars
  exact ⟨hKept, hTruth, hText⟩

end Session

end CircuitForm
