import CircuitForm.Proofs.Input.Canonical
import CircuitForm.Proofs.Input.RawText
import CircuitForm.Proofs.Session.Conformance

/-!
# Typing what is there already

An edit by text takes the same values as an edit by a value. Typing the text that stands for a
node at the very place of the node is committed and leaves the inputs as they are.
-/

namespace CircuitForm

namespace Session

theorem edit_rawText_of_fits {registry : Registry} {s : Session} (h : Conforms registry s)
    (hNames : registry.DistinctNames) {path : Path} {type : Descriptor}
    (hType : typeAt s.program.parameters path = some type) (hUnreserved : type.Unreserved)
    (hDepth : type.depth ≤ Json.depthLimit) {tree : InputTree} (hFits : tree.Fits type) :
    ∃ inputs, s.inputs.replace path tree = .ok inputs ∧ s.edit path tree.rawText =
      (.ok .committed, { s.withInputs inputs with invalid := s.invalid.clearSubtree path }) := by
  have hChecked : checkedText tree.rawText type = .ok tree :=
    check_rawText_of_fits ((h.distinctNames hNames).typeAt hType) hUnreserved hDepth hFits
  exact h.editBy_of_checked hType hChecked

theorem edit_rawText {registry : Registry} {s : Session} (h : Conforms registry s)
    (hNames : registry.DistinctNames) {path : Path} {type : Descriptor}
    (hType : typeAt s.program.parameters path = some type) (hUnreserved : type.Unreserved)
    (hDepth : type.depth ≤ Json.depthLimit) :
    ∃ node, s.inputs.at? path = some node ∧ s.edit path node.rawText =
      (.ok .committed, { s.withInputs s.inputs with invalid := s.invalid.clearSubtree path }) := by
  obtain ⟨node, hNode, hFits⟩ := h.fit.exists_at? hType
  obtain ⟨inputs, hInputs, hEdit⟩ := edit_rawText_of_fits h hNames hType hUnreserved hDepth hFits
  cases hInputs.symm.trans (Inputs.replace_self hNode)
  exact ⟨node, hNode, hEdit⟩

/-- A tree that is accepted as a value is accepted as a text and as the same, and so is what it
becomes; typing a node of a session in its own place changes nothing. -/
theorem rawText_agrees {type : Descriptor} (hNames : type.DistinctNames)
    (hUnreserved : type.Unreserved) (hDepth : type.depth ≤ 127) :
    (∀ tree accepted : InputTree, tree.DistinctNames → typecheck type (.ofTree tree) = .ok accepted →
      check type tree.rawText = .ok accepted ∧ check type accepted.rawText = .ok accepted) ∧
    ∀ (registry : Registry) (s : Session) (path : Path), registry.DistinctNames →
      Reachable registry s → typeAt s.program.parameters path = some type →
      ∃ node after, s.inputs.at? path = some node ∧
        s.edit path node.rawText = (.ok .committed, after) ∧ after.inputs = s.inputs := by
  constructor
  · intro tree accepted hDistinct hAccepted
    have hFits := fits_of_typecheck hNames hAccepted
    exact ⟨check_rawText hNames hUnreserved hDepth hDistinct hAccepted,
      check_rawText_of_fits hNames hUnreserved hDepth hFits⟩
  · intro registry s path hRegistry hReachable hType
    have hConforms := Conforms.of_reachable hRegistry hReachable
    obtain ⟨node, hNode, hEdit⟩ := edit_rawText hConforms hRegistry hType hUnreserved hDepth
    exact ⟨node, _, hNode, hEdit, rfl⟩

/-- The share of an owner, in another order and with a word for the truth value. -/
def spelledShare : InputTree :=
  .struct [("share", .list [.zero, .string "TRUE "]), ("tag", .string "no")]

theorem rawText_agrees_sample :
    check sampleOwner spelledShare.rawText = .ok sampleShare ∧
      check sampleOwner sampleShare.rawText = .ok sampleShare ∧
      ∃ node after, sample.inputs.at? [.key "owners", .index 1] = some node ∧
        sample.edit [.key "owners", .index 1] node.rawText = (.ok .committed, after) ∧
        after.inputs = sample.inputs := by
  have hNames : sampleOwner.DistinctNames := by
    simp [sampleOwner, Descriptor.DistinctNames, Descriptor.DistinctNamesFields,
      Descriptor.DistinctNamesEach, Entries.Distinct]
  have hUnreserved : sampleOwner.Unreserved := by
    simp [sampleOwner, Descriptor.Unreserved, Descriptor.UnreservedFields, Descriptor.UnreservedEach,
      Json.reservedKey]
  have hAgrees := rawText_agrees hNames hUnreserved (by decide)
  have hSpelled : spelledShare.Fits
      (.struct "" [("share", .tuple [.field, .string 5]), ("tag", .string 2)]) := by
    simp [spelledShare, InputTree.Fits, InputTree.FitFields, InputTree.FitEach, InputTree.zero]
    decide
  have hDistinct : spelledShare.DistinctNames := hSpelled.distinctNames (by
    simp [Descriptor.DistinctNames, Descriptor.DistinctNamesFields, Descriptor.DistinctNamesEach,
      Entries.Distinct])
  have hAccepted : typecheck sampleOwner (.ofTree spelledShare) = .ok sampleShare := rfl
  obtain ⟨hText, hAgain⟩ := hAgrees.1 spelledShare sampleShare hDistinct hAccepted
  exact ⟨hText, hAgain, hAgrees.2 sampleRegistry sample _ distinctNames_sampleRegistry
    ⟨"vote", sample, [], start_sample, rfl⟩ rfl⟩

end Session

end CircuitForm
