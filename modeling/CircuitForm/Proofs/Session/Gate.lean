import CircuitForm.Proofs.Input.InvalidPaths
import CircuitForm.Proofs.Session.Effect

/-!
# The gate before a run

Which paths are invalid is told by the history of edits alone: a rejected edit stands until an
edit at its path or above is committed, or all inputs are renewed. While one stands nothing
is run.
-/

namespace CircuitForm

namespace Session

def Event.Clears (path : Path) : Event → Prop
  | .rejected _ => False
  | .committed above => above <+: path
  | .renewed => True

/-- An edit at exactly this path was rejected, and nothing later took that back. -/
def StandsRejected (history : List Transition) (path : Path) : Prop :=
  ∃ earlier t later, history = earlier ++ t :: later ∧ t.event? = some (.rejected path) ∧
    ∀ u ∈ later, ∀ event, u.event? = some event → ¬ event.Clears path

theorem not_standsRejected_nil (path : Path) : ¬ StandsRejected [] path := by
  rintro ⟨earlier, t, later, hHistory, -⟩
  simp at hHistory

theorem standsRejected_concat {history : List Transition} {t : Transition} {path : Path} :
    StandsRejected (history ++ [t]) path ↔ t.event? = some (.rejected path) ∨
      (StandsRejected history path ∧ ∀ event, t.event? = some event → ¬ event.Clears path) := by
  constructor
  · rintro ⟨earlier, u, later, hHistory, hRejected, hLater⟩
    rcases List.eq_nil_or_concat later with rfl | ⟨before, last, rfl⟩
    · obtain ⟨rfl, hLast⟩ := List.append_inj' hHistory rfl
      cases hLast
      exact .inl hRejected
    · rw [List.concat_eq_append, ← List.cons_append, ← List.append_assoc] at hHistory
      obtain ⟨rfl, hLast⟩ := List.append_inj' hHistory rfl
      cases hLast
      refine .inr ⟨⟨earlier, u, before, rfl, hRejected, fun v hv => hLater v ?_⟩, hLater t ?_⟩
      · simp [hv]
      · simp
  · rintro (hRejected | ⟨⟨earlier, u, later, rfl, hRejected, hLater⟩, hLast⟩)
    · exact ⟨history, t, [], rfl, hRejected, by simp⟩
    · refine ⟨earlier, u, later ++ [t], by simp, hRejected, fun v hv => ?_⟩
      rcases List.mem_append.mp hv with hBefore | hEnd
      · exact hLater v hBefore
      · exact List.mem_singleton.mp hEnd ▸ hLast

theorem isInvalid_target_iff (t : Transition) (path : Path) :
    t.target.invalid.isInvalid path = true ↔ t.event? = some (.rejected path) ∨
      (t.source.invalid.isInvalid path = true ∧
        ∀ event, t.event? = some event → ¬ event.Clears path) := by
  have hEffect := t.effect
  generalize t.event? = event at hEffect
  cases hEffect with
  | unchanged hTarget =>
    rw [hTarget]
    simp
  | stored _ _ hTarget =>
    rw [hTarget]
    simp [store]
  | rejected rejected hTarget =>
    rw [hTarget]
    simp [InvalidPaths.isInvalid_register_true, Event.Clears, @eq_comm _ path]
  | committed above _ _ _ _ _ _ _ hTarget =>
    rw [hTarget]
    simp [InvalidPaths.isInvalid_clearSubtree, Event.Clears, and_comm]
  | selected _ _ _ _ hTarget =>
    rw [hTarget]
    simp [InvalidPaths.not_isInvalid_empty, Event.Clears]
  | seeded _ hTarget =>
    rw [hTarget]
    simp [seed, InvalidPaths.not_isInvalid_empty, Event.Clears]

theorem isInvalid_iff_standsRejected {first : Session} (hFirst : first.invalid = .empty)
    (operations : List Operation) (path : Path) :
    (first.run operations).invalid.isInvalid path = true ↔
      StandsRejected (first.history operations) path := by
  induction operations using List.reverseRecOn with
  | nil => simp [run, history, hFirst, InvalidPaths.not_isInvalid_empty, not_standsRejected_nil]
  | append_singleton before operation ih =>
    rw [history_concat, standsRejected_concat, run_concat, ← ih]
    exact isInvalid_target_iff ⟨first.run before, operation⟩ path

theorem canonical_target {t : Transition} (h : t.source.invalid.Canonical) : t.target.invalid.Canonical := by
  have hEffect := t.effect
  generalize t.event? = event at hEffect
  cases hEffect with
  | unchanged hTarget => exact hTarget ▸ h
  | stored _ _ hTarget => exact hTarget ▸ h
  | rejected path hTarget => exact hTarget ▸ h.register path true
  | committed path _ _ _ _ _ _ _ hTarget => exact hTarget ▸ h.clearSubtree path
  | selected _ _ _ _ hTarget => exact hTarget ▸ InvalidPaths.canonical_empty
  | seeded _ hTarget => exact hTarget ▸ InvalidPaths.canonical_empty

theorem canonical_run {first : Session} (hFirst : first.invalid = .empty) (operations : List Operation) :
    (first.run operations).invalid.Canonical :=
  run_induction (motive := fun s => s.invalid.Canonical) (hFirst ▸ InvalidPaths.canonical_empty)
    (fun s operation h => @canonical_target ⟨s, operation⟩ h) operations

/-- `execute` for an executor whose call is an effect. -/
def executeIn {m : Type → Type} [Monad m] (s : Session)
    (executor : Program → Inputs → m (Except ExecutionError Execution)) :
    m (Except SessionError Execution × Session) :=
  match s.executionRequest with
  | .error error => pure (.error error, s)
  | .ok (ticket, inputs) => do
    let result ← executor s.program inputs
    match s.completeExecution ticket result with
    | (.error error, s) => pure (.error error, s)
    | (.ok _, s) =>
      match s.artifacts.execution with
      | some execution => pure (.ok execution, s)
      | none => pure (.error .missingWitness, s)

theorem executeIn_id (s : Session) (executor : Executor) :
    @executeIn Id _ s executor = s.execute executor := by
  rw [executeIn, execute]
  cases s.executionRequest with
  | error _ => rfl
  | ok handed =>
    dsimp only [bind, pure]
    rcases s.completeExecution handed.1 (executor s.program handed.2) with ⟨_ | _, after⟩
    · rfl
    · cases after.artifacts.execution <;> rfl

theorem executionRequest_of_anyInvalid {s : Session} (h : s.invalid.anyInvalid = true) :
    s.executionRequest = .error (.executionGated s.invalid.count) := by
  rw [executionRequest, canExecute, h]
  rfl

structure GatedBy (history : List Transition) (s : Session) : Prop where
  isInvalid_iff : ∀ path, s.invalid.isInvalid path = true ↔ StandsRejected history path
  canExecute_iff : s.canExecute = true ↔ ∀ path, ¬ StandsRejected history path
  request_iff : (∃ handed, s.executionRequest = .ok handed) ↔ ∀ path, ¬ StandsRejected history path
  gated : ∀ path, StandsRejected history path → ∃ count, 0 < count ∧
    {other | StandsRejected history other}.ncard = count ∧
    s.executionRequest = .error (.executionGated count) ∧
    (∀ executor, s.execute executor = (.error (.executionGated count), s)) ∧
    ∀ (m : Type → Type) [Monad m] (executor : Program → Inputs → m (Except ExecutionError Execution)),
      s.executeIn executor = pure (.error (.executionGated count), s)

theorem gatedBy_history {registry : Registry} {name : String} {first : Session}
    (hStart : start registry name = .ok first) (operations : List Operation) :
    GatedBy (first.history operations) (first.run operations) := by
  have hFirst := invalid_start hStart
  have hInvalid := isInvalid_iff_standsRejected hFirst operations
  have hCanonical := canonical_run hFirst operations
  generalize first.run operations = s, first.history operations = history at hInvalid hCanonical ⊢
  have hAny : s.invalid.anyInvalid = true ↔ ∃ path, StandsRejected history path := by
    rw [hCanonical.anyInvalid_iff]
    exact exists_congr hInvalid
  have hOpen : s.canExecute = true ↔ ∀ path, ¬ StandsRejected history path := by
    rw [canExecute, Bool.not_eq_true', ← Bool.not_eq_true, hAny, not_exists]
  refine ⟨hInvalid, hOpen, ?_, ?_⟩
  · rw [← hOpen, executionRequest]
    split <;> simp_all
  · intro path hPath
    have hGate := hAny.mpr ⟨path, hPath⟩
    have hRequest := executionRequest_of_anyInvalid hGate
    refine ⟨s.invalid.count, InvalidPaths.count_pos_iff.mpr hGate, ?_, hRequest,
      fun executor => ?_, fun m _ executor => ?_⟩
    · rw [← hCanonical.ncard_eq_count]
      exact congrArg Set.ncard (Set.ext fun other => (hInvalid other).symm)
    · rw [execute, hRequest]
    · rw [executeIn, hRequest]

def sampleEdits : List Operation :=
  [.edit [.key "owners", .index 0, .key "tag"] "long", .edit [.key "limit"] "1.5",
    .editValue [.key "owners", .index 0]
      (.struct [("tag", .string "ok"), ("share", .list [.zero, .boolean true])])]

theorem gatedBy_sample : GatedBy (sample.history sampleEdits) (sample.run sampleEdits) :=
  gatedBy_history start_sample sampleEdits

end Session

end CircuitForm
