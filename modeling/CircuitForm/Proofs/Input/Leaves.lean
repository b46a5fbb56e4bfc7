import CircuitForm.Proofs.Descriptor.Nesting
import CircuitForm.Proofs.Input.Synthesis

/-!
# Trees by their leaves

A tree that fits its descriptor is determined by its leaves, since everything above them is
declared. What is synthesized at a path depends only on what the earlier tree has there.
-/

namespace CircuitForm

namespace InputTree

theorem Fits.eq_of_child {tree other : InputTree} {type : Descriptor} (hNames : type.DistinctNames)
    (hComposite : type.isScalar = false) (h : tree.Fits type) (hOther : other.Fits type)
    (hChild : ∀ segment, tree.child segment = other.child segment) : tree = other := by
  cases type with
  | field | boolean | string _ | integer _ _ => cases hComposite
  | array length element =>
    obtain ⟨items, rfl, -⟩ := h.exists_list_of_array
    obtain ⟨others, rfl, -⟩ := hOther.exists_list_of_array
    exact congrArg list (List.ext_getElem? fun i => hChild (.index i))
  | tuple elements =>
    obtain ⟨items, rfl, -⟩ := h.exists_list_of_tuple
    obtain ⟨others, rfl, -⟩ := hOther.exists_list_of_tuple
    exact congrArg list (List.ext_getElem? fun i => hChild (.index i))
  | struct path fields =>
    obtain ⟨entries, rfl, hEntries⟩ := h.exists_struct
    obtain ⟨others, rfl, hOthers⟩ := hOther.exists_struct
    have hDistinct := (Descriptor.distinctNames_struct_iff.mp hNames).1
    have hEntriesDistinct : Entries.Distinct entries := by rwa [Entries.Distinct, hEntries.names_eq]
    exact congrArg struct (Entries.eq_of_lookup (hEntries.names_eq.trans hOthers.names_eq.symm)
      hEntriesDistinct fun name => hChild (.key name))

theorem Fits.eq_of_leaves {tree other : InputTree} {type : Descriptor} (hNames : type.DistinctNames)
    (h : tree.Fits type) (hOther : other.Fits type)
    (hLeaves : ∀ path leaf, type.at? path = some leaf → leaf.isScalar = true →
      tree.at? path = other.at? path) : tree = other := by
  induction type using Descriptor.inductOnChild generalizing tree other with
  | step type ih =>
    cases hScalar : type.isScalar with
    | true => exact Option.some.inj (hLeaves [] type rfl hScalar)
    | false =>
      refine h.eq_of_child hNames hScalar hOther fun segment => ?_
      have hTree := h.child_rel segment
      have hOtherTree := hOther.child_rel segment
      cases hType : type.child segment with
      | none =>
        rw [hType] at hTree hOtherTree
        generalize tree.child segment = node, other.child segment = otherNode at hTree hOtherTree
        cases hTree
        cases hOtherTree
        rfl
      | some declared =>
        rw [hType] at hTree hOtherTree
        generalize hNode : tree.child segment = node, hOtherNode : other.child segment = otherNode
          at hTree hOtherTree
        cases hTree with
        | @some item _ hItem =>
          cases hOtherTree with
          | @some otherItem _ hOtherItem =>
            refine congrArg some (ih segment declared hType (hNames.child hType) hItem hOtherItem ?_)
            intro path leaf hLeaf hLeafScalar
            have hAt := hLeaves (segment :: path) leaf (by rw [Descriptor.at?_cons, hType]; exact hLeaf)
              hLeafScalar
            rwa [at?_cons, at?_cons, hNode, hOtherNode] at hAt

end InputTree

theorem child_synthesize {type : Descriptor} (hNames : type.DistinctNames)
    (previous : Option InputTree) (segment : Segment) :
    (synthesize type previous).child segment =
      (type.child segment).map fun declared =>
        synthesize declared (previousChild previous segment) := by
  cases type with
  | field | boolean | string _ | integer _ _ =>
    have hChild := (fits_synthesize hNames previous).child_rel segment
    generalize (synthesize _ previous).child segment = node at hChild ⊢
    cases segment <;> cases hChild <;> rfl
  | array length element =>
    rw [synthesize]
    cases segment with
    | key _ => rfl
    | index i =>
      rw [InputTree.child, Descriptor.child, List.getElem?_map]
      by_cases hIndex : i < length
      · rw [List.getElem?_range hIndex, if_pos hIndex]
        rfl
      · have hLength : (List.range length).length ≤ i := by
          rw [List.length_range]
          omega
        rw [List.getElem?_eq_none hLength, if_neg hIndex]
        rfl
  | tuple elements =>
    rw [synthesize, synthesizeElements_eq]
    cases segment with
    | key _ => rfl
    | index i =>
      rw [InputTree.child, Descriptor.child, List.getElem?_mapIdx, Nat.zero_add]
  | struct path fields =>
    rw [synthesize_struct (Descriptor.distinctNames_struct_iff.mp hNames).1]
    cases segment with
    | index _ => rfl
    | key name =>
      rw [InputTree.child, Descriptor.child]
      exact Entries.lookup_map (fun name type => synthesize type (previousChild previous (.key name)))
        fields name

theorem at?_synthesize {type : Descriptor} (hNames : type.DistinctNames)
    (previous : Option InputTree) (path : Path) :
    (synthesize type previous).at? path =
      (type.at? path).map fun declared => synthesize declared (previous.bind (·.at? path)) := by
  induction path generalizing type previous with
  | nil => cases previous <;> rfl
  | cons segment rest ih =>
    rw [InputTree.at?_cons, Descriptor.at?_cons, child_synthesize hNames]
    cases hType : type.child segment with
    | none => rfl
    | some declared =>
      rw [Option.map_some, Option.bind_some, Option.bind_some, ih (hNames.child hType)]
      cases previous <;> rfl

/-- What stands at a path of new inputs is made from what stood there before, and nothing else. -/
theorem at?_synthesizeInputs {program : Program} (hNames : program.DistinctNames) (previous : Inputs)
    (path : Path) :
    (synthesizeInputs program.parameters previous).at? path =
      (typeAt program.parameters path).map fun declared => synthesize declared (previous.at? path) := by
  cases path with
  | nil => rfl
  | cons segment rest =>
    rw [Inputs.at?_cons, struct_synthesizeInputs, at?_synthesize hNames.ofParameters,
      ← Descriptor.typeAt_cons, Option.bind_some, ← Inputs.at?_cons]

theorem synthesize_scalar {type : Descriptor} (hScalar : type.isScalar = true)
    (previous : Option InputTree) : synthesize type previous = carriedOrDefault type previous := by
  cases type with
  | field | boolean | string _ | integer _ _ => rfl
  | array _ _ | tuple _ | struct _ _ => cases hScalar

theorem carriedOrDefault_of_fits {type : Descriptor} (hScalar : type.isScalar = true)
    {tree : InputTree} (h : tree.Fits type) : carriedOrDefault type (some tree) = tree := by
  rw [carriedOrDefault, if_pos ((InputTree.carries_iff_fits hScalar tree).mpr h)]

theorem carriedOrDefault_of_not_fits {type : Descriptor} (hScalar : type.isScalar = true)
    {tree : InputTree} (h : ¬ tree.Fits type) : carriedOrDefault type (some tree) = scalarDefault type := by
  rw [carriedOrDefault, if_neg fun hCarries => h ((InputTree.carries_iff_fits hScalar tree).mp hCarries)]

/-- A tree that fits has a leaf of its own for each default, so all of it is carried. -/
theorem synthesize_of_fits {type : Descriptor} (hNames : type.DistinctNames) {tree : InputTree}
    (h : tree.Fits type) : synthesize type (some tree) = tree := by
  refine (fits_synthesize hNames (some tree)).eq_of_leaves hNames h fun path leaf hLeaf hScalar => ?_
  obtain ⟨node, hNode, hFits⟩ := h.exists_at? hLeaf
  rw [at?_synthesize hNames, hLeaf, Option.map_some, Option.bind_some, hNode, synthesize_scalar hScalar,
    carriedOrDefault_of_fits hScalar hFits]

end CircuitForm
