import CircuitForm.Command.Run
import CircuitForm.Proofs.Descriptor.Nested
import CircuitForm.Proofs.Session.Conformance

/-!
# The lines of a parameter's leaves

What is shown of a parameter with its leaves is a line for each path below it that the program declares.
Each line starts with a text that is read as its path again, and it is at these paths that a session of
the program can be edited.
-/

namespace CircuitForm

/-- The path goes through the parameter and on. -/
def Parameter.LiesAbove (parameter : Parameter) (path : Path) : Prop :=
  [.key parameter.name] <+: path ∧ path ≠ [.key parameter.name]

theorem Parameter.liesAbove_iff {parameter : Parameter} {path : Path} :
    parameter.LiesAbove path ↔ ∃ rest, rest ≠ [] ∧ path = .key parameter.name :: rest := by
  constructor
  · rintro ⟨⟨rest, rfl⟩, hProper⟩
    exact ⟨rest, fun hRest => hProper (by rw [hRest, List.append_nil]), rfl⟩
  · rintro ⟨rest, hRest, rfl⟩
    exact ⟨List.prefix_append [.key parameter.name] rest, fun hSame => hRest (List.cons.inj hSame).2⟩

/-- The names of parameters and fields can be spelled in a path, and the indexes too. -/
def Program.Spellable (program : Program) : Prop :=
  ∀ parameter ∈ program.parameters, Path.IsName parameter.name.toList ∧ parameter.type.Spellable

section

variable {program : Program} {parameter : Parameter}

theorem mem_nested_parameter_iff (hNames : program.DistinctNames) (hParameter : parameter ∈ program.parameters)
    {path : Path} {type : Descriptor} :
    (path, type) ∈ parameter.type.nested [.key parameter.name] ↔
      parameter.LiesAbove path ∧ typeAt program.parameters path = some type := by
  have hType := hNames.2 parameter hParameter
  rw [Descriptor.nested_singleton hType, List.mem_map, Parameter.liesAbove_iff]
  constructor
  · rintro ⟨⟨rest, type⟩, hNode, ⟨⟩⟩
    obtain ⟨hRest, hDeclared⟩ := (Descriptor.mem_nested_nil_iff hType).mp hNode
    exact ⟨⟨rest, hRest, rfl⟩, (typeAt_parameter hNames hParameter rest).trans hDeclared⟩
  · rintro ⟨⟨rest, hRest, rfl⟩, hDeclared⟩
    rw [typeAt_parameter hNames hParameter] at hDeclared
    exact ⟨(rest, type), (Descriptor.mem_nested_nil_iff hType).mpr ⟨hRest, hDeclared⟩, rfl⟩

theorem pairwise_nested_parameter (hNames : program.DistinctNames)
    (hParameter : parameter ∈ program.parameters) :
    (parameter.type.nested [.key parameter.name]).Pairwise fun node later =>
      (Descriptor.ofParameters program.parameters).Precedes node.1 later.1 := by
  have hType := hNames.2 parameter hParameter
  rw [Descriptor.nested_singleton hType, List.pairwise_map]
  exact (Descriptor.pairwise_nested hType).imp (.deeper (child_ofParameters hNames hParameter))

theorem Program.Spellable.ofParameters (h : program.Spellable) :
    (Descriptor.ofParameters program.parameters).Spellable := by
  rw [Descriptor.ofParameters, Descriptor.spellable_struct_iff, List.forall_mem_map]
  exact h

theorem Program.Spellable.typeAt (h : program.Spellable) {path : Path} {type : Descriptor}
    (hType : typeAt program.parameters path = some type) : path.Spellable := by
  cases path with
  | nil => cases hType
  | cons segment rest =>
    rw [Descriptor.typeAt_cons] at hType
    exact h.ofParameters.at? hType

end

/-- The lines of a parameter are one for each declared path below it, in the declared order with each
node before what is in it. No other path below the parameter can be edited. -/
theorem leafLines_listing {program : Program} (hNames : program.DistinctNames) (hSpellable : program.Spellable)
    {parameter : Parameter} (hParameter : parameter ∈ program.parameters) :
    ∃ nodes : List (Path × Descriptor),
      Command.leafLines parameter =
        nodes.map (fun node => "    " ++ node.1.display ++ ": " ++ node.2.title) ∧
      (∀ path type, (path, type) ∈ nodes ↔
        parameter.LiesAbove path ∧ typeAt program.parameters path = some type) ∧
      (nodes.map Prod.fst).Nodup ∧
      (nodes.Pairwise fun node later =>
        (Descriptor.ofParameters program.parameters).Precedes node.1 later.1) ∧
      (∀ node ∈ nodes, Path.parse node.1.display = .ok node.1) ∧
      ∀ registry s, Session.Reachable registry s → s.program = program → ∀ path raw,
        parameter.LiesAbove path →
          ((∃ outcome, (s.edit path raw).1 = .ok outcome) ↔ ∃ type, (path, type) ∈ nodes) := by
  have hOrder := pairwise_nested_parameter hNames hParameter
  refine ⟨parameter.type.nested [.key parameter.name], rfl, ?_, ?_, hOrder, ?_, ?_⟩
  · exact fun path type => mem_nested_parameter_iff hNames hParameter
  · exact List.pairwise_map.mpr (hOrder.imp Descriptor.Precedes.ne)
  · rintro ⟨path, type⟩ hNode
    have hType := ((mem_nested_parameter_iff hNames hParameter).mp hNode).2
    exact Path.parse_of_spellable (hSpellable.typeAt hType)
  · rintro registry s hReachable rfl path raw hPath
    rw [Session.edit_eq_editBy, Session.exists_outcome_editBy_iff (Session.fit_of_reachable hNames hReachable)]
    simp only [mem_nested_parameter_iff hNames hParameter, hPath, true_and]

example : Command.leafLines ⟨"s", .struct "S" [("xs", .array 2 .field), ("none", .array 0 .boolean)], none⟩ =
    ["    s.xs: [Field; 2]", "    s.xs[0]: Field", "    s.xs[1]: Field", "    s.none: [bool; 0]"] := by decide

theorem spellable_sampleProgram : Session.sampleProgram.Spellable := by
  simp [Program.Spellable, Session.sampleProgram, Descriptor.Spellable, Descriptor.SpellableFields,
    Descriptor.SpellableEach]
  decide

theorem leafLines_listing_owners :
    Session.sampleProgram.DistinctNames ∧ Session.sampleProgram.Spellable ∧
    Path.parse (Path.display [.key "owners", .index 1, .key "share", .index 0]) =
      .ok [.key "owners", .index 1, .key "share", .index 0] ∧
    ∀ raw, ∃ outcome,
      (Session.sample.edit [.key "owners", .index 1, .key "share", .index 0] raw).1 = .ok outcome := by
  have hNames : Session.sampleProgram.DistinctNames :=
    Session.distinctNames_sampleRegistry _ List.mem_cons_self
  have hReachable : Session.Reachable Session.sampleRegistry Session.sample :=
    ⟨"vote", Session.sample, [], Session.start_sample, rfl⟩
  obtain ⟨nodes, -, hMember, -, -, hParse, hEdit⟩ := leafLines_listing hNames spellable_sampleProgram
    (List.mem_cons_of_mem _ List.mem_cons_self)
  have hPath : ([.key "owners", .index 1, .key "share", .index 0], Descriptor.field) ∈ nodes :=
    (hMember _ _).mpr ⟨⟨⟨_, rfl⟩, by decide⟩, rfl⟩
  refine ⟨hNames, spellable_sampleProgram, hParse _ hPath, fun raw => ?_⟩
  exact (hEdit _ _ hReachable rfl _ raw ((hMember _ _).mp hPath).1).mpr ⟨_, hPath⟩

end CircuitForm
