import CircuitForm.Json.Structure

/-!
# Results that are values

A chain of steps gives a value exactly when each step does. So a reader's success is taken apart
into the successes of its parts, and put together from them. A failure is that of the first part that
fails.
-/

namespace CircuitForm

variable {ε α β : Type}

theorem bind_eq_ok_iff {result : Except ε α} {next : α → Except ε β} {value : β} :
    (result >>= next) = .ok value ↔ ∃ first, result = .ok first ∧ next first = .ok value := by
  cases result with
  | error _ => exact iff_of_false nofun fun ⟨_, h, _⟩ => nomatch h
  | ok first => exact ⟨fun h => ⟨first, rfl, h⟩, fun ⟨_, hFirst, h⟩ => by cases hFirst; exact h⟩

theorem bind_eq_error_iff {result : Except ε α} {next : α → Except ε β} {error : ε} :
    (result >>= next) = .error error ↔
      result = .error error ∨ ∃ first, result = .ok first ∧ next first = .error error := by
  cases result with
  | error _ =>
    constructor
    · rintro ⟨⟩
      exact .inl rfl
    · rintro (⟨⟨⟩⟩ | ⟨_, ⟨⟩, -⟩)
      rfl
  | ok first =>
    constructor
    · exact fun h => .inr ⟨first, rfl, h⟩
    · rintro (⟨⟨⟩⟩ | ⟨_, ⟨⟩, h⟩)
      exact h

@[simp] theorem ok_bind (value : α) (next : α → Except ε β) : (Except.ok value >>= next) = next value := rfl

theorem map_eq_ok_iff {result : Except ε α} {f : α → β} {value : β} :
    result.map f = .ok value ↔ ∃ first, result = .ok first ∧ f first = value := by
  cases result with
  | error _ => exact iff_of_false nofun fun ⟨_, h, _⟩ => nomatch h
  | ok first => simp [Except.map]

theorem mapError_eq_ok_iff {result : Except ε α} {f : ε → β} {value : α} :
    result.mapError f = .ok value ↔ result = .ok value := by
  cases result with
  | error _ => exact iff_of_false nofun nofun
  | ok _ =>
    constructor
    · rintro ⟨⟩
      rfl
    · rintro ⟨⟩
      rfl

theorem map_eq_error_iff {result : Except ε α} {f : α → β} {error : ε} :
    result.map f = .error error ↔ result = .error error := by
  cases result with
  | error _ =>
    constructor
    · rintro ⟨⟩
      rfl
    · rintro ⟨⟩
      rfl
  | ok _ => exact iff_of_false nofun nofun

theorem mapError_eq_error_iff {result : Except ε α} {f : ε → β} {error : β} :
    result.mapError f = .error error ↔ ∃ first, result = .error first ∧ f first = error := by
  cases result with
  | error first =>
    constructor
    · rintro ⟨⟩
      exact ⟨first, rfl, rfl⟩
    · rintro ⟨_, ⟨⟩, rfl⟩
      rfl
  | ok _ => exact iff_of_false nofun fun ⟨_, h, _⟩ => nomatch h

/-- What went wrong, if something did. -/
def errorOf? : Except ε α → Option ε
  | .ok _ => none
  | .error error => some error

theorem errorOf?_eq_some_iff {result : Except ε α} {error : ε} :
    errorOf? result = some error ↔ result = .error error := by
  cases result with
  | error _ => simp [errorOf?]
  | ok _ => simp [errorOf?]

theorem errorOf?_eq_none_iff {result : Except ε α} : errorOf? result = none ↔ ∃ value, result = .ok value := by
  cases result with
  | error _ => simp [errorOf?]
  | ok _ => simp [errorOf?]

theorem errorOf?_map (result : Except ε α) (f : α → β) : errorOf? (result.map f) = errorOf? result := by
  cases result <;> rfl

/-- Of two parts that do not depend on one another the second one counts only if the first is right. -/
theorem errorOf?_both {γ : Type} (first : Except ε α) (second : Except ε β) (f : α → β → γ) :
    errorOf? (do let a ← first; let b ← second; .ok (f a b)) = (errorOf? first).or (errorOf? second) := by
  cases first with
  | error _ => rfl
  | ok _ => cases second <;> rfl

namespace Json

theorem within_eq_ok_iff {step : Step} {result : Except Fault α} {value : α} :
    within step result = .ok value ↔ result = .ok value := by
  cases result with
  | error _ => exact iff_of_false nofun nofun
  | ok first => exact Iff.rfl

theorem closing_eq_ok_iff {close : Bytes → Except Fault Bytes} {result : Except Fault (α × Bytes)}
    {value : α} {rest : Bytes} :
    closing close result = .ok (value, rest) ↔
      ∃ inside, result = .ok (value, inside) ∧ close inside = .ok rest := by
  cases result with
  | error _ => exact iff_of_false nofun fun ⟨_, h, _⟩ => nomatch h
  | ok first =>
    rw [closing, map_eq_ok_iff]
    constructor
    · rintro ⟨rest, hClose, ⟨⟩⟩
      exact ⟨_, rfl, hClose⟩
    · rintro ⟨inside, ⟨⟩, hClose⟩
      exact ⟨rest, hClose, rfl⟩

end Json

end CircuitForm
