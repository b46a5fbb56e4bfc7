import CircuitForm.Proofs.Input.InvalidPaths
import CircuitForm.Proofs.Session.Effect

/-!
# Failures and refusals

An operation that fails leaves the session as it was, at whichever of its steps it failed; so a run
ends as if the operations that failed had not been called. An edit that is refused marks its
path and changes nothing else.
-/

namespace CircuitForm

namespace Session

def Answer.error? : Answer → Option SessionError
  | .selected (.error error) | .edited (.error error) => some error
  | .executionRequested (.error error) | .proofRequested (.error error) => some error
  | .verificationRequested (.error error) | .completed (.error error) => some error
  | .executed (.error error) | .proved (.error error) | .verified (.error error) => some error
  | _ => none

section

variable {t : Transition} {error : SessionError}

theorem ofEdit_of_error {result : Except SessionError EditOutcome}
    (h : (Answer.edited result).error? = some error) (path : Path) : Event.ofEdit path result = none := by
  cases result with
  | ok outcome => cases h
  | error _ => rfl

theorem event?_of_error (h : t.answer.error? = some error) : t.event? = none := by
  unfold Transition.event?
  split
  · rename_i hAnswer
    rw [hAnswer] at h
    cases h
  · rename_i hAnswer
    rw [hAnswer] at h
    cases h
  · rename_i path _ _ _ hAnswer
    exact ofEdit_of_error (hAnswer ▸ h) path
  · rename_i path _ _ _ hAnswer
    exact ofEdit_of_error (hAnswer ▸ h) path
  · rfl

theorem delivery?_of_error (h : t.answer.error? = some error) : t.delivery? = none := by
  unfold Transition.delivery?
  split
  -- Only what was answered with a value is delivered.
  all_goals simp_all [Answer.error?]

theorem target_of_error (h : t.answer.error? = some error) : t.target = t.source := by
  have hEffect := t.effect
  rw [event?_of_error h] at hEffect
  cases hEffect with
  | unchanged hTarget => exact hTarget
  | stored artifact hDelivery hTarget =>
    rw [delivery?_of_error h] at hDelivery
    cases hDelivery

theorem event?_of_rejected {path : Path} {refusal : InputError} (hPath : t.operation.editedPath? = some path)
    (h : t.answer = .edited (.ok (.rejected refusal))) : t.event? = some (.rejected path) := by
  unfold Transition.event?
  obtain ⟨raw, hOperation⟩ | ⟨value, hOperation⟩ := cases_of_editedPath hPath
  · rw [hOperation, h]
    rfl
  · rw [hOperation, h]
    rfl

theorem target_of_rejected {path : Path} (h : t.event? = some (.rejected path)) :
    t.target = { t.source with invalid := t.source.invalid.register path true } := by
  have hEffect := t.effect
  rw [h] at hEffect
  cases hEffect with
  | rejected _ hTarget => exact hTarget

end

/-- A run ends as if the operations that failed in it had not been called. -/
theorem run_of_succeeded (s : Session) (operations : List Operation) :
    s.run (((s.history operations).filter fun t => t.answer.error?.isNone).map Transition.operation) =
      s.run operations := by
  induction operations generalizing s with
  | nil => rfl
  | cons operation rest ih =>
    let t : Transition := ⟨s, operation⟩
    have hRest := ih t.target
    have hHistory : s.history (operation :: rest) = t :: t.target.history rest := rfl
    have hRun : s.run (operation :: rest) = t.target.run rest := rfl
    rw [hHistory, hRun]
    cases hAnswer : t.answer.error? with
    | none =>
      rw [List.filter_cons_of_pos (by rw [hAnswer]; rfl)]
      exact hRest
    | some error =>
      rw [List.filter_cons_of_neg (by rw [hAnswer]; nofun), ← hRest, target_of_error hAnswer]

/-- Of the two sessions only the marks differ, and they only in that the path is marked. -/
structure OnlyMarks (before : Session) (path : Path) (after : Session) : Prop where
  rest : after = { before with invalid := after.invalid }
  marks : ∀ other, after.invalid.isInvalid other = true ↔
    other = path ∨ before.invalid.isInvalid other = true
  tickets : ∀ ticket, after.isCurrent ticket = before.isCurrent ticket

/-- What fails changes nothing, and what is refused only marks the edited path. -/
theorem target_of_failure (s : Session) :
    (∀ operation error, (s.step operation).1.error? = some error → (s.step operation).2 = s) ∧
    ∀ operation path refusal, operation.editedPath? = some path →
      (s.step operation).1 = .edited (.ok (.rejected refusal)) →
        OnlyMarks s path (s.step operation).2 := by
  constructor
  · intro operation error hError
    exact @target_of_error ⟨s, operation⟩ error hError
  · intro operation path refusal hPath hAnswer
    have hEvent := @event?_of_rejected ⟨s, operation⟩ path refusal hPath hAnswer
    have hTarget : (s.step operation).2 = { s with invalid := s.invalid.register path true } :=
      target_of_rejected hEvent
    rw [hTarget]
    exact ⟨rfl, fun other => InvalidPaths.isInvalid_register_true, fun _ => rfl⟩

def sampleVerified : Session :=
  sample.run [.execute fun _ _ => .ok ⟨[1, 2], none⟩, .prove fun _ _ => .ok ⟨[9], ["3"]⟩,
    .verify fun _ _ => .ok true]

/-- A run that fails keeps the verdict on the run before it. -/
theorem target_of_failure_sample :
    sampleVerified.artifacts.verdict = some true ∧
      (sampleVerified.step (.execute fun _ _ => .error (.unsatisfied "limit"))).2 = sampleVerified ∧
      OnlyMarks sampleVerified [.key "owners", .index 1, .key "tag"]
        (sampleVerified.step (.edit [.key "owners", .index 1, .key "tag"] "long")).2 := by
  have hFailure := target_of_failure sampleVerified
  exact ⟨rfl, hFailure.1 _ (.execution (.unsatisfied "limit")) rfl,
    hFailure.2 _ _ ⟨[.key "owners", .index 1, .key "tag"], .wrongLength 2 4⟩ rfl rfl⟩

end Session

end CircuitForm
