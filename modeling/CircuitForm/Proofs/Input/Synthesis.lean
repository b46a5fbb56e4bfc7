import CircuitForm.Proofs.Input.Fits

/-!
# Synthesized trees

With distinct names a synthesized struct has its declared fields in order, each synthesized from
the earlier tree under its name. A synthesized tree therefore fits its descriptor, whatever the
earlier tree was.
-/

namespace CircuitForm

open InputTree (Fits)

/-- Fields whose names are new are put behind those built so far. -/
theorem synthesizeFields_eq {fields : Entries Descriptor} {built : Entries InputTree}
    (previous : Option InputTree) (h : (built.names ++ fields.names).Nodup) :
    synthesizeFields fields previous built =
      built ++ fields.map fun field =>
        (field.1, synthesize field.2 (previousChild previous (.key field.1))) := by
  induction fields generalizing built with
  | nil => simp [synthesizeFields]
  | cons field rest ih =>
    obtain ⟨name, type⟩ := field
    have hFresh : name ∉ built.names := by
      intro hMember
      exact (List.nodup_append.mp h).2.2 name hMember name List.mem_cons_self rfl
    rw [synthesizeFields, Entries.insert_of_not_mem _ hFresh, ih (by simpa using h)]
    simp

theorem synthesize_struct {fields : Entries Descriptor} (hDistinct : fields.Distinct) (path : String)
    (previous : Option InputTree) :
    synthesize (.struct path fields) previous =
      .struct (fields.map fun field =>
        (field.1, synthesize field.2 (previousChild previous (.key field.1)))) := by
  rw [synthesize, synthesizeFields_eq previous (by simpa [Entries.Distinct] using hDistinct),
    List.nil_append]

theorem synthesizeElements_eq (elements : List Descriptor) (index : Nat)
    (previous : Option InputTree) :
    synthesizeElements elements index previous =
      elements.mapIdx fun i type => synthesize type (previousChild previous (.index (index + i))) := by
  induction elements generalizing index with
  | nil => rfl
  | cons element rest ih =>
    rw [synthesizeElements, ih, List.mapIdx_cons]
    simp [Nat.add_assoc, Nat.add_comm 1]

theorem struct_synthesizeInputs (parameters : List Parameter) (previous : Inputs) :
    InputTree.struct (synthesizeInputs parameters previous) =
      synthesize (.ofParameters parameters) (some (.struct previous)) := by
  have hFields : ∀ built : Inputs,
      parameters.foldl (fun inputs parameter =>
        inputs.insert parameter.name
          (synthesize parameter.type (previous.lookup parameter.name))) built =
      synthesizeFields (parameters.map fun parameter => (parameter.name, parameter.type))
        (some (.struct previous)) built := by
    induction parameters with
    | nil => exact fun _ => rfl
    | cons parameter rest ih => exact fun built => ih _
  rw [Descriptor.ofParameters, synthesize, synthesizeInputs, hFields]

theorem fits_carriedOrDefault {type : Descriptor} (hScalar : type.isScalar = true)
    (previous : Option InputTree) : (carriedOrDefault type previous).Fits type := by
  cases previous with
  | none => exact InputTree.fits_scalarDefault hScalar
  | some tree =>
    rw [carriedOrDefault]
    split
    · rename_i hCarries
      exact (InputTree.carries_iff_fits hScalar tree).mp hCarries
    · exact InputTree.fits_scalarDefault hScalar

theorem fits_synthesize {type : Descriptor} (hNames : type.DistinctNames)
    (previous : Option InputTree) : (synthesize type previous).Fits type := by
  induction type generalizing previous with
  | field | boolean | string _ | integer _ _ => exact fits_carriedOrDefault rfl previous
  | array length element ih =>
    rw [synthesize, Fits]
    refine ⟨by simp, fun item hItem => ?_⟩
    obtain ⟨i, -, rfl⟩ := List.mem_map.mp hItem
    exact ih hNames _
  | tuple elements ih =>
    rw [synthesize, InputTree.fits_tuple_iff, synthesizeElements_eq, List.forall₂_iff_get]
    refine ⟨by simp, fun i _ hIndex => ?_⟩
    rw [List.get_eq_getElem, List.getElem_mapIdx]
    exact ih _ (List.get_mem _ _) (Descriptor.distinctNames_tuple_iff.mp hNames _ (List.get_mem _ _)) _
  | struct path fields ih =>
    obtain ⟨hDistinct, hFields⟩ := Descriptor.distinctNames_struct_iff.mp hNames
    rw [synthesize_struct hDistinct, InputTree.fits_struct_iff, Entries.Aligned,
      List.forall₂_map_left_iff, List.forall₂_same]
    exact fun field hField => ⟨rfl, ih field hField (hFields field hField) _⟩

theorem fit_synthesizeInputs {program : Program} (hNames : program.DistinctNames)
    (previous : Inputs) : (synthesizeInputs program.parameters previous).Fit program.parameters := by
  rw [Inputs.fit_iff, struct_synthesizeInputs]
  exact fits_synthesize hNames.ofParameters _

end CircuitForm
