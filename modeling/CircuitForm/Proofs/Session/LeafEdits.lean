import CircuitForm.Proofs.Input.Enumeration
import CircuitForm.Proofs.Session.Retyping

/-!
# A value typed leaf by leaf

A value is set by one edit, or by one edit for each of its leaves. While the leaves are typed the
inputs are in part the old ones and in part the new. They differ from the new ones only where a leaf
is still to be typed, so the order in which the leaves are typed does not matter.
-/

namespace CircuitForm

namespace Session

def leafEdits (order : List (Path × InputTree)) : List Operation :=
  order.map fun entry => .edit entry.1 entry.2.rawText

section

variable {registry : Registry} {s : Session}

theorem edit_rawText_of_scalar (h : Conforms registry s) (hNames : registry.DistinctNames) {target : Inputs}
    (hTarget : target.Fit s.program.parameters) {path : Path} {leaf : InputTree}
    (hLeaf : target.at? path = some leaf) (hScalar : leaf.isScalar = true) :
    ∃ inputs, s.inputs.replace path leaf = .ok inputs ∧ s.edit path leaf.rawText =
      (.ok .committed, { s.withInputs inputs with invalid := s.invalid.clearSubtree path }) := by
  have hNode := hTarget.at?_rel path
  rw [hLeaf] at hNode
  generalize hType : typeAt s.program.parameters path = declared at hNode
  cases hNode with
  | @some _ type hFits =>
    have hTypeScalar : type.isScalar = true := hFits.isScalar_eq.symm.trans hScalar
    have hUnreserved := Descriptor.unreserved_of_isScalar hTypeScalar
    have hDepth : type.depth ≤ Json.depthLimit := by
      rw [Descriptor.depth_eq_zero_iff.mpr hTypeScalar]
      exact Nat.zero_le _
    exact edit_rawText_of_fits h hNames hType hUnreserved hDepth hFits

/-- Any inputs that fit are reached when their scalars are typed, as far as they are not there yet. -/
theorem run_leafEdits (h : Conforms registry s) (hNames : registry.DistinctNames) {target : Inputs}
    (hTarget : target.Fit s.program.parameters) {order : List (Path × InputTree)}
    (hOrder : ∀ entry ∈ order, target.at? entry.1 = some entry.2 ∧ entry.2.isScalar = true)
    (hLacks : s.inputs.Lacks target order) :
    (∀ t ∈ s.history (leafEdits order), t.answer = .edited (.ok .committed)) ∧
      (s.run (leafEdits order)).inputs = target := by
  -- On the leaves that are still to be typed; nothing else is lacking at any time.
  induction order generalizing s with
  | nil =>
    have hProgram : s.program.DistinctNames := h.distinctNames hNames
    exact ⟨List.forall_mem_nil _, hLacks.eq hProgram.ofParameters h.fit hTarget⟩
  | cons entry rest ih =>
    obtain ⟨path, leaf⟩ := entry
    obtain ⟨⟨hLeaf, hScalar⟩, hRest⟩ := List.forall_mem_cons.mp hOrder
    obtain ⟨inputs, hInputs, hEdit⟩ := edit_rawText_of_scalar h hNames hTarget hLeaf hScalar
    have hStep : s.step (.edit path leaf.rawText) =
        (.edited (.ok .committed), { s.withInputs inputs with invalid := s.invalid.clearSubtree path }) := by
      rw [step, hEdit]
      rfl
    have hNext := h.step hNames (.edit path leaf.rawText)
    rw [hStep] at hNext
    obtain ⟨hAnswers, hEnd⟩ := ih hNext hTarget hRest (hLacks.replace hLeaf hScalar hInputs)
    rw [leafEdits, List.map_cons, history, run, hStep]
    exact ⟨List.forall_mem_cons.mpr ⟨congrArg Prod.fst hStep, hAnswers⟩, hEnd⟩

end

open InputTree (Lists under)

/-- One edit sets a value. Typing the leaves of what was accepted, in any order, gives the same inputs. -/
theorem leafEdits_agree {registry : Registry} (hNames : registry.DistinctNames) {s : Session}
    (h : Reachable registry s) {path : Path} {type : Descriptor}
    (hType : typeAt s.program.parameters path = some type) {value accepted : InputTree}
    (hAccepted : typecheck type (.ofTree value) = .ok accepted) :
    ∃ after, s.editValue path value = (.ok .committed, after) ∧
      after.inputs.at? path = some accepted ∧ Lists accepted.leaves accepted ∧
      ∀ order, Lists order accepted →
        (∀ t ∈ s.history (leafEdits (under path order)), t.answer = .edited (.ok .committed)) ∧
          (s.run (leafEdits (under path order))).inputs = after.inputs := by
  have hConforms := Conforms.of_reachable hNames h
  have hTypeNames := (hConforms.distinctNames hNames).typeAt hType
  have hFits := fits_of_typecheck hTypeNames hAccepted
  have hChecked : checkedValue value type = .ok accepted := firstError_eq_ok_iff.mpr hAccepted
  obtain ⟨target, hTarget, hEdit⟩ := hConforms.editBy_of_checked hType hChecked
  rw [← editValue_eq_editBy] at hEdit
  refine ⟨_, hEdit, Inputs.at?_replace hTarget,
    InputTree.lists_leaves (hFits.distinctNames hTypeNames), ?_⟩
  intro order hOrder
  have hTargetFit : target.Fit s.program.parameters := hConforms.fit.replace hType hFits hTarget
  refine run_leafEdits hConforms hNames hTargetFit ?_ (Inputs.lacks_of_replace hTarget hOrder)
  intro entry hEntry
  obtain ⟨⟨below, leaf⟩, hListed, rfl⟩ := List.mem_map.mp hEntry
  obtain ⟨hLeaf, hScalar⟩ := (hOrder below leaf).mp hListed
  exact ⟨(Inputs.at?_replace_join hTarget below).trans hLeaf, hScalar⟩

def spelledOwners : InputTree :=
  .list [spelledShare, .struct [("tag", .string "us"), ("share", .list [.zero, .string " 1"])]]

def acceptedOwners : InputTree :=
  .list [sampleShare, .struct [("tag", .string "us"), ("share", .list [.zero, .boolean true])]]

theorem leafEdits_owners :
    let edits := leafEdits (under [.key "owners"] acceptedOwners.leaves.reverse)
    (∀ t ∈ sample.history edits, t.answer = .edited (.ok .committed)) ∧
      (sample.run edits).inputs = (sample.editValue [.key "owners"] spelledOwners).2.inputs := by
  have hType : typeAt sample.program.parameters [.key "owners"] = some (.array 2 sampleOwner) := rfl
  have hAccepted : typecheck (.array 2 sampleOwner) (.ofTree spelledOwners) = .ok acceptedOwners := rfl
  have hReachable : Reachable sampleRegistry sample := ⟨"vote", sample, [], start_sample, rfl⟩
  obtain ⟨after, hEdit, -, hLeaves, hAny⟩ :=
    leafEdits_agree distinctNames_sampleRegistry hReachable hType hAccepted
  rw [hEdit]
  exact hAny _ (hLeaves.perm (List.reverse_perm _).symm)

end Session

end CircuitForm
