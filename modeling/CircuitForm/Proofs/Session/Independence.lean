import CircuitForm.Proofs.Input.InvalidPaths
import CircuitForm.Proofs.Input.Locality
import CircuitForm.Proofs.Session.Effect
import CircuitForm.Proofs.Session.Gate

/-!
# Edits at paths apart

An edit does not change what stands at a path apart from its own, so it does not change either
how an edit there is answered. Two such edits can be made in either order: each of them has
the same answer in both, and both orders end in the same session.
-/

namespace CircuitForm

namespace Session

def Event.Spares (path : Path) : Event → Prop
  | .rejected _ => True
  | .committed edited => edited.Apart path
  | .renewed => False

theorem target_of_spares {t : Transition} {path : Path}
    (h : ∀ event, t.event? = some event → event.Spares path) :
    t.target.program = t.source.program ∧ t.target.inputs.at? path = t.source.inputs.at? path := by
  have hEffect := t.effect
  generalize t.event? = event at hEffect h
  cases hEffect with
  | unchanged hTarget => rw [hTarget]; exact ⟨rfl, rfl⟩
  | stored _ _ hTarget => rw [hTarget]; exact ⟨rfl, rfl⟩
  | rejected _ hTarget => rw [hTarget]; exact ⟨rfl, rfl⟩
  | committed edited _ _ _ _ _ _ hInputs hTarget =>
    have hApart : edited.Apart path := h _ rfl
    rw [hTarget]
    exact ⟨rfl, Inputs.at?_replace_of_apart hApart hInputs⟩
  | selected | seeded => exact absurd rfl (h _)

theorem editBy_spares (s : Session) {p q : Path} (hApart : p.Apart q)
    (checked : Descriptor → Except InputError InputTree) :
    (s.editBy p checked).2.program = s.program ∧
      (s.editBy p checked).2.inputs.at? q = s.inputs.at? q := by
  obtain ⟨error, hEdit⟩ | ⟨refusal, hEdit⟩ | ⟨type, value, inputs, -, -, hInputs, hEdit⟩ :=
    editBy_cases s p checked
  · rw [hEdit]
    exact ⟨rfl, rfl⟩
  · rw [hEdit]
    exact ⟨rfl, rfl⟩
  · rw [hEdit]
    exact ⟨rfl, Inputs.at?_replace_of_apart hApart hInputs⟩

theorem typeFor_congr {s after : Session} {path : Path} (hProgram : after.program = s.program)
    (hNode : after.inputs.at? path = s.inputs.at? path) : after.typeFor path = s.typeFor path := by
  rw [typeFor, typeFor, hProgram, hNode]

section

variable {s : Session} {p q : Path}

theorem answer_settle {node : InputTree} (hNode : s.inputs.at? p = some node)
    (result : Except InputError InputTree) :
    (s.settle p result).1 =
      match result with
      | .ok _ => .ok .committed
      | .error refusal => .ok (.rejected (refusal.rebase p)) := by
  cases result with
  | error refusal => rfl
  | ok value =>
    obtain ⟨inputs, hInputs⟩ := Inputs.exists_replace hNode value
    rw [settle_of_replace hInputs]

/-- The answer is told by what is declared at the path and by whether there is a node. -/
theorem answer_editBy_congr {after : Session} (hType : after.typeFor p = s.typeFor p)
    (checked : Descriptor → Except InputError InputTree) :
    (after.editBy p checked).1 = (s.editBy p checked).1 := by
  cases hFound : s.typeFor p with
  | error error => rw [editBy_of_error hFound, editBy_of_error (hType.trans hFound)]
  | ok type =>
    obtain ⟨-, node, hNode⟩ := typeFor_eq_ok_iff.mp hFound
    obtain ⟨-, newNode, hNewNode⟩ := typeFor_eq_ok_iff.mp (hType.trans hFound)
    rw [editBy_of_type hFound, editBy_of_type (hType.trans hFound), answer_settle hNode,
      answer_settle hNewNode]

/-- A value may be put at one path before or after an edit at the other is refused. -/
theorem settle_refused_comm (hCanonical : s.invalid.Canonical) (hApart : p.Apart q) {node : InputTree}
    (hNode : s.inputs.at? p = some node) (value : InputTree) (refusal : InputError) :
    ((s.settle p (.ok value)).2.settle q (.error refusal)).2 =
      ((s.settle q (.error refusal)).2.settle p (.ok value)).2 := by
  obtain ⟨inputs, hInputs⟩ := Inputs.exists_replace hNode value
  have hMarked : (s.settle q (.error refusal)).2.inputs.replace p value = .ok inputs := hInputs
  rw [settle_of_replace hInputs, settle_of_replace hMarked]
  simp only [settle, withInputs, InvalidPaths.register_clearSubtree hCanonical hApart.1]

theorem settle_comm (hCanonical : s.invalid.Canonical) (hApart : p.Apart q) {atP atQ : InputTree}
    (hP : s.inputs.at? p = some atP) (hQ : s.inputs.at? q = some atQ)
    (a b : Except InputError InputTree) :
    ((s.settle p a).2.settle q b).2 = ((s.settle q b).2.settle p a).2 := by
  cases a with
  | error first =>
    cases b with
    | error second => simp only [settle, InvalidPaths.register_comm hCanonical p q]
    | ok value => exact (settle_refused_comm hCanonical hApart.symm hQ value first).symm
  | ok x =>
    cases b with
    | error second => exact settle_refused_comm hCanonical hApart hP x second
    | ok y =>
      obtain ⟨first, hFirst⟩ := Inputs.exists_replace hP x
      obtain ⟨second, hSecond⟩ := Inputs.exists_replace hQ y
      obtain ⟨both, hBothFirst, hBothSecond⟩ := Inputs.replace_comm hApart hFirst hSecond
      rw [settle_of_replace hFirst, settle_of_replace hSecond]
      rw [settle_of_replace (s := { s.withInputs first with invalid := _ }) hBothFirst,
        settle_of_replace (s := { s.withInputs second with invalid := _ }) hBothSecond]
      simp only [withInputs, InvalidPaths.clearSubtree_comm s.invalid p q]

theorem editBy_comm (hCanonical : s.invalid.Canonical) (hApart : p.Apart q)
    (first second : Descriptor → Except InputError InputTree) :
    ((s.editBy p first).2.editBy q second).2 = ((s.editBy q second).2.editBy p first).2 := by
  have hAfterFirst : (s.editBy p first).2.typeFor q = s.typeFor q :=
    typeFor_congr (editBy_spares s hApart first).1 (editBy_spares s hApart first).2
  have hAfterSecond : (s.editBy q second).2.typeFor p = s.typeFor p :=
    typeFor_congr (editBy_spares s hApart.symm second).1 (editBy_spares s hApart.symm second).2
  cases hP : s.typeFor p with
  | error error =>
    rw [editBy_of_error hP, editBy_of_error (hAfterSecond.trans hP)]
  | ok atP =>
    cases hQ : s.typeFor q with
    | error error =>
      rw [editBy_of_error hQ, editBy_of_error (hAfterFirst.trans hQ)]
    | ok atQ =>
      rw [editBy_of_type (hAfterFirst.trans hQ), editBy_of_type (hAfterSecond.trans hP),
        editBy_of_type hP, editBy_of_type hQ]
      obtain ⟨-, nodeP, hNodeP⟩ := typeFor_eq_ok_iff.mp hP
      obtain ⟨-, nodeQ, hNodeQ⟩ := typeFor_eq_ok_iff.mp hQ
      exact settle_comm hCanonical hApart hNodeP hNodeQ _ _

end

/-- In either order each operation has the answer that it has alone, and the session is the same
in the end. -/
structure Interchange (s : Session) (first second : Operation) : Prop where
  firstAnswer : ((s.step second).2.step first).1 = (s.step first).1
  secondAnswer : ((s.step first).2.step second).1 = (s.step second).1
  session : ((s.step first).2.step second).2 = ((s.step second).2.step first).2

theorem canonical_of_reachable {registry : Registry} {s : Session} (h : Reachable registry s) :
    s.invalid.Canonical := by
  obtain ⟨name, first, operations, hStart, rfl⟩ := h
  exact canonical_run (invalid_start hStart) operations

theorem interchange_of_apart {registry : Registry} {s : Session} (h : Reachable registry s)
    {first second : Operation} {p q : Path} (hFirst : first.editedPath? = some p)
    (hSecond : second.editedPath? = some q) (hApart : p.Apart q) : Interchange s first second := by
  obtain ⟨checkedFirst, hStepFirst⟩ := step_of_editedPath hFirst
  obtain ⟨checkedSecond, hStepSecond⟩ := step_of_editedPath hSecond
  have hSparesFirst := editBy_spares s hApart checkedFirst
  have hSparesSecond := editBy_spares s hApart.symm checkedSecond
  constructor
  · rw [hStepFirst, hStepFirst, hStepSecond]
    exact congrArg Answer.edited
      (answer_editBy_congr (typeFor_congr hSparesSecond.1 hSparesSecond.2) checkedFirst)
  · rw [hStepSecond, hStepSecond, hStepFirst]
    exact congrArg Answer.edited
      (answer_editBy_congr (typeFor_congr hSparesFirst.1 hSparesFirst.2) checkedSecond)
  · rw [hStepSecond, hStepFirst, hStepSecond, hStepFirst]
    exact editBy_comm (canonical_of_reachable h) hApart checkedFirst checkedSecond

/-- Two owners that come after each other in the same array, one of them refused. -/
theorem interchange_owners :
    Interchange (sample.run sampleEdits) (.edit [.key "owners", .index 0, .key "tag"] "ab")
      (.editValue [.key "owners", .index 1] (.struct [("tag", .string "abc")])) :=
  interchange_of_apart ⟨"vote", sample, sampleEdits, start_sample, rfl⟩ rfl rfl (by decide)

end Session

end CircuitForm
