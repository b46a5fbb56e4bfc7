import Mathlib.Tactic.TFAE
import CircuitForm.Proofs.Input.Coercion
import CircuitForm.Proofs.Input.Leaves

/-!
# Canonical trees

The checker and the synthesizer descend into a descriptor each on its own. They agree on what a
tree of a type is: what either of them gives, and what both of them leave as it is, are the trees
that fit.
-/

namespace CircuitForm

theorem fits_iff_synthesize {type : Descriptor} (hNames : type.DistinctNames) {tree : InputTree} :
    tree.Fits type ↔ synthesize type (some tree) = tree := by
  constructor
  · exact synthesize_of_fits hNames
  · intro h
    rw [← h]
    exact fits_synthesize hNames _

theorem treeErrors_eq_nil_of_fits {type : Descriptor} (hNames : type.DistinctNames)
    {tree : InputTree} (h : tree.Fits type) : treeErrors type tree = [] := by
  rw [treeErrors, (fits_iff_typecheck hNames).mp h]

/-- A tree is left alone by the checker exactly when it is left alone by the synthesizer, and
exactly when either of them can give it. -/
theorem canonical_tfae {type : Descriptor} (hNames : type.DistinctNames) :
    (∀ tree, List.TFAE [
      typecheck type (.ofTree tree) = .ok tree,
      synthesize type (some tree) = tree,
      ∃ literal, typecheck type literal = .ok tree,
      ∃ previous, synthesize type previous = tree]) ∧
    (∀ literal tree, typecheck type literal = .ok tree → typecheck type (.ofTree tree) = .ok tree) ∧
    (∀ previous, synthesize type (some (synthesize type previous)) = synthesize type previous) ∧
    treeErrors type (synthesize type none) = [] := by
  refine ⟨fun tree => ?_, fun literal tree h => ?_, fun previous => ?_, ?_⟩
  · tfae_have 1 → 3 := fun h => ⟨_, h⟩
    tfae_have 3 → 2 := fun ⟨_, h⟩ => (fits_iff_synthesize hNames).mp (fits_of_typecheck hNames h)
    tfae_have 2 → 4 := fun h => ⟨_, h⟩
    tfae_have 4 → 1 := by
      rintro ⟨previous, rfl⟩
      exact (fits_iff_typecheck hNames).mp (fits_synthesize hNames previous)
    tfae_finish
  · exact (fits_iff_typecheck hNames).mp (fits_of_typecheck hNames h)
  · exact synthesize_of_fits hNames (fits_synthesize hNames previous)
  · exact treeErrors_eq_nil_of_fits hNames (fits_synthesize hNames none)

def sampleOwner : Descriptor :=
  .struct "Owner" [("tag", .string 2), ("share", .tuple [.field, .boolean])]

def sampleShare : InputTree :=
  .struct [("tag", .string "no"), ("share", .list [.zero, .boolean true])]

theorem canonical_sampleShare :
    sampleOwner.DistinctNames ∧ typecheck sampleOwner (.ofTree sampleShare) = .ok sampleShare ∧
      synthesize sampleOwner (some sampleShare) = sampleShare := by
  have hNames : sampleOwner.DistinctNames := by
    simp [sampleOwner, Descriptor.DistinctNames, Descriptor.DistinctNamesFields,
      Descriptor.DistinctNamesEach, Entries.Distinct]
  have hAccepted : typecheck sampleOwner (.ofTree sampleShare) = .ok sampleShare := rfl
  have hSame := ((canonical_tfae hNames).1 sampleShare).out 0 1
  exact ⟨hNames, hAccepted, hSame.mp hAccepted⟩

end CircuitForm
