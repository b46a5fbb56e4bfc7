import CircuitForm.Proofs.Session.Effect

/-!
# Tickets and stored results

The revision counts the changes of the inputs. As long as there are fewer of them than words,
two sessions of one run have the same revision exactly when nothing changed between them, so a
ticket is current exactly until the first change after it was issued.
-/

namespace CircuitForm

namespace Session

def Event.changes : Event → Bool
  | .rejected _ => false
  | .committed _ | .renewed => true

def Transition.changesInputs (t : Transition) : Bool :=
  t.event?.any Event.changes

def changeCount (history : List Transition) : Nat :=
  history.countP Transition.changesInputs

/-- The ticket that the operation obtains from a request. -/
def Transition.issued? (t : Transition) : Option Ticket :=
  match t.operation with
  | .ticket => some t.source.ticket
  | .requestExecution | .execute _ => t.source.executionRequest.toOption.map Prod.fst
  | .requestProof | .prove _ => t.source.proofRequest.toOption.map Prod.fst
  | .requestVerification | .verify _ => t.source.verificationRequest.toOption.map Prod.fst
  | _ => none

def Operation.redeemed? : Operation → Option Ticket
  | .completeExecution under _ | .completeProof under _ | .completeVerification under _ => some under
  | _ => none

/-- What a completion brings: the artifact of its stage, or an error. -/
def Operation.brought? : Operation → Option (Except SessionError Artifact)
  | .completeExecution _ result => some ((result.map .execution).mapError .execution)
  | .completeProof _ result => some ((result.map .proof).mapError .proof)
  | .completeVerification _ result => some ((result.map .verdict).mapError .verification)
  | _ => none

theorem exists_ok_of_toOption {ε α β : Type} {result : Except ε (α × β)} {first : α}
    (h : result.toOption.map Prod.fst = some first) : ∃ second, result = .ok (first, second) := by
  cases result with
  | error _ => cases h
  | ok pair => exact ⟨pair.2, Option.some.inj h ▸ rfl⟩

theorem issued?_eq_some {t : Transition} {ticket : Ticket} (h : t.issued? = some ticket) :
    ticket = t.source.ticket ∧ t.changesInputs = false := by
  obtain ⟨s, operation⟩ := t
  cases operation with
  | ticket => exact ⟨(Option.some.inj h).symm, rfl⟩
  | requestExecution | execute _ =>
    obtain ⟨_, hRequest⟩ := exists_ok_of_toOption h
    exact ⟨(executionRequest_eq_ok_iff.mp hRequest).2.1, rfl⟩
  | requestProof | prove _ =>
    obtain ⟨_, hRequest⟩ := exists_ok_of_toOption h
    exact ⟨(proofRequest_eq_ok_iff.mp hRequest).1, rfl⟩
  | requestVerification | verify _ =>
    obtain ⟨_, hRequest⟩ := exists_ok_of_toOption h
    exact ⟨(verificationRequest_eq_ok_iff.mp hRequest).1, rfl⟩
  | select _ | seed _ | edit _ _ | editValue _ _ => cases h
  | completeExecution _ _ | completeProof _ _ | completeVerification _ _ => cases h

theorem target_of_not_changes {t : Transition} (h : t.changesInputs = false) :
    t.target.revision = t.source.revision ∧ t.target.name = t.source.name ∧
      t.target.program = t.source.program ∧ t.target.inputs = t.source.inputs := by
  have hEffect := t.effect
  rw [Transition.changesInputs] at h
  generalize t.event? = event at hEffect h
  cases hEffect with
  | unchanged hTarget => rw [hTarget]; exact ⟨rfl, rfl, rfl, rfl⟩
  | stored _ _ hTarget => rw [hTarget]; exact ⟨rfl, rfl, rfl, rfl⟩
  | rejected _ hTarget => rw [hTarget]; exact ⟨rfl, rfl, rfl, rfl⟩
  | committed | selected | seeded => cases h

theorem target_of_changes {t : Transition} (h : t.changesInputs = true) :
    t.target.revision = t.source.revision + 1 ∧ t.target.artifacts = {} := by
  have hEffect := t.effect
  rw [Transition.changesInputs] at h
  generalize t.event? = event at hEffect h
  cases hEffect with
  | unchanged | stored | rejected => cases h
  | committed _ _ _ _ _ _ _ _ hTarget => rw [hTarget]; exact ⟨rfl, rfl⟩
  | selected _ _ _ _ hTarget => rw [hTarget]; exact ⟨rfl, rfl⟩
  | seeded _ hTarget => rw [hTarget]; exact ⟨rfl, rfl⟩

theorem revision_run (s : Session) (operations : List Operation) :
    (s.run operations).revision.toNat =
      (s.revision.toNat + changeCount (s.history operations)) % Word.bound64 := by
  induction operations generalizing s with
  | nil => exact (Nat.mod_eq_of_lt s.revision.toNat_lt).symm
  | cons operation rest ih =>
    let t : Transition := ⟨s, operation⟩
    have hRest := ih t.target
    have hCount : changeCount (s.history (operation :: rest)) =
        changeCount (t.target.history rest) + if t.changesInputs then 1 else 0 :=
      List.countP_cons
    rw [hCount]
    cases hChanges : t.changesInputs with
    | false =>
      rw [(target_of_not_changes hChanges).1] at hRest
      exact hRest
    | true =>
      have hNext : t.target.revision.toNat = (s.revision.toNat + 1) % Word.bound64 := by
        rw [(target_of_changes hChanges).1, UInt64.toNat_add]
        rfl
      rw [hNext] at hRest
      refine hRest.trans ?_
      rw [if_pos rfl, Nat.mod_add_mod, Nat.add_assoc, Nat.add_comm 1]

theorem revision_run_eq_iff {s : Session} {operations : List Operation}
    (hBound : changeCount (s.history operations) < Word.bound64) :
    (s.run operations).revision = s.revision ↔
      ∀ t ∈ s.history operations, t.changesInputs = false := by
  have hRevision := revision_run s operations
  have hWord : s.revision.toNat < Word.bound64 := s.revision.toNat_lt
  have hNone : changeCount (s.history operations) = 0 ↔
      ∀ t ∈ s.history operations, t.changesInputs = false := by
    simp [changeCount, List.countP_eq_zero]
  rw [← hNone, ← UInt64.toNat_inj, hRevision]
  unfold Word.bound64 at hBound hWord ⊢
  omega

theorem run_of_not_changes {s : Session} {operations : List Operation}
    (h : ∀ t ∈ s.history operations, t.changesInputs = false) :
    (s.run operations).name = s.name ∧ (s.run operations).program = s.program ∧
      (s.run operations).inputs = s.inputs := by
  induction operations generalizing s with
  | nil => exact ⟨rfl, rfl, rfl⟩
  | cons operation rest ih =>
    obtain ⟨hFirst, hRest⟩ := List.forall_mem_cons.mp h
    obtain ⟨-, hName, hProgram, hInputs⟩ := target_of_not_changes hFirst
    obtain ⟨hNameRun, hProgramRun, hInputsRun⟩ := ih hRest
    exact ⟨hNameRun.trans hName, hProgramRun.trans hProgram, hInputsRun.trans hInputs⟩

section

variable {first : Session} {operations : List Operation} {earlier later : List Transition}
  {t : Transition} {ticket : Ticket}

/-- A ticket stays current until the first change after it was issued. -/
theorem issued_current_iff (hBound : changeCount (first.history operations) < Word.bound64)
    (hHistory : first.history operations = earlier ++ t :: later) (hIssued : t.issued? = some ticket) :
    ticket = (first.run operations).ticket ↔ ∀ u ∈ later, u.changesInputs = false := by
  obtain ⟨back, rfl, hRun⟩ := exists_rest_of_history hHistory
  obtain ⟨rfl, hQuiet⟩ := issued?_eq_some hIssued
  have hLater : changeCount (t.target.history back) < Word.bound64 := by
    rw [hHistory, changeCount, List.countP_append, List.countP_cons] at hBound
    rw [changeCount]
    omega
  rw [hRun, ← revision_run_eq_iff hLater, (target_of_not_changes hQuiet).1]
  simp only [Session.ticket, Ticket.mk.injEq]
  exact eq_comm

theorem source_of_not_changes (hHistory : first.history operations = earlier ++ t :: later)
    (hQuiet : t.changesInputs = false) (hLater : ∀ u ∈ later, u.changesInputs = false) :
    t.source.name = (first.run operations).name ∧ t.source.program = (first.run operations).program ∧
      t.source.inputs = (first.run operations).inputs := by
  obtain ⟨back, rfl, hRun⟩ := exists_rest_of_history hHistory
  obtain ⟨-, hName, hProgram, hInputs⟩ := target_of_not_changes hQuiet
  obtain ⟨hNameRun, hProgramRun, hInputsRun⟩ := run_of_not_changes hLater
  rw [hRun]
  exact ⟨(hNameRun.trans hName).symm, (hProgramRun.trans hProgram).symm,
    (hInputsRun.trans hInputs).symm⟩

end

theorem step_of_redeemed {operation : Operation} {ticket : Ticket}
    (h : operation.redeemed? = some ticket) (s : Session) :
    ∃ (ε α : Type) (result : Except ε α) (failure : ε → SessionError) (store : α → Artifacts),
      s.step operation = (s.complete ticket result failure store).map .completed id := by
  cases operation with
  | completeExecution _ _ | completeProof _ _ | completeVerification _ _ =>
    cases h
    exact ⟨_, _, _, _, _, rfl⟩
  | select | seed | edit | editValue => cases h
  | ticket | requestExecution | execute | requestProof | prove => cases h
  | requestVerification | verify => cases h

theorem step_of_stale {s : Session} {operation : Operation} {ticket : Ticket}
    (h : operation.redeemed? = some ticket) (hStale : ticket ≠ s.ticket) :
    s.step operation = (.completed (.ok false), s) := by
  obtain ⟨_, _, result, failure, store, hStep⟩ := step_of_redeemed h s
  rw [hStep, complete_of_stale result failure store hStale]
  rfl

/-- What a session makes of what a current completion brings. -/
def take (s : Session) : Except SessionError Artifact → Answer × Session
  | .ok artifact => (.completed (.ok true), s.store artifact)
  | .error error => (.completed (.error error), s)

theorem step_of_current {s : Session} {operation : Operation} {ticket : Ticket}
    (h : operation.redeemed? = some ticket) (hCurrent : ticket = s.ticket) :
    ∃ result, operation.brought? = some result ∧ s.step operation = s.take result := by
  cases operation with
  | completeExecution under result | completeProof under result | completeVerification under result =>
    cases h
    refine ⟨_, rfl, ?_⟩
    simp only [step, completeExecution, completeProof, completeVerification,
      complete_of_current result _ _ hCurrent]
    cases result <;> rfl
  | select | seed | edit | editValue => cases h
  | ticket | requestExecution | execute | requestProof | prove => cases h
  | requestVerification | verify => cases h

theorem answer_of_current {s : Session} {operation : Operation} {ticket : Ticket}
    (h : operation.redeemed? = some ticket) (hCurrent : ticket = s.ticket) :
    (s.step operation).1 ≠ .completed (.ok false) := by
  obtain ⟨result, -, hStep⟩ := step_of_current h hCurrent
  rw [hStep]
  cases result <;> simp [take]

theorem issued_of_runStage {α β ε : Type} {t : Transition} {ticket : Ticket} {stored : Artifact}
    {request : Except SessionError (Ticket × α)} {backend : Program → α → Except ε β}
    {failure : ε → SessionError} {artifact : β → Artifact} {stage : Except SessionError β × Session}
    (hStage : stage = t.source.runStage request backend failure artifact)
    (hIssued : t.issued? = request.toOption.map Prod.fst)
    (hDelivery : t.delivery? =
      stage.1.toOption.map fun answer => (t.source.ticket, artifact answer))
    (h : t.delivery? = some (ticket, stored)) : t.issued? = some ticket := by
  rw [hDelivery, hStage] at h
  rcases @runStage_cases α β ε t.source request backend failure artifact with
    ⟨error, hRun⟩ | ⟨handed, answer, hRequest, hRun⟩
  · rw [hRun] at h
    cases h
  · rw [hRun] at h
    cases h
    have hHanded : t.issued? = some handed.1 := by rw [hIssued, hRequest]; rfl
    rw [hHanded, (issued?_eq_some hHanded).1]

theorem issued_or_redeemed_of_delivery {t : Transition} {ticket : Ticket} {artifact : Artifact}
    (h : t.delivery? = some (ticket, artifact)) :
    t.issued? = some ticket ∨ t.operation.redeemed? = some ticket := by
  obtain ⟨s, operation⟩ := t
  cases operation with
  | completeExecution _ _ | completeProof _ _ | completeVerification _ _ =>
    right
    simp only [Transition.delivery?] at h
    split at h <;> simp_all [Operation.redeemed?]
  | execute executor =>
    exact .inl (issued_of_runStage (execute_eq_runStage s executor) rfl (delivery?_execute s executor) h)
  | prove prover =>
    exact .inl (issued_of_runStage (prove_eq_runStage s prover) rfl (delivery?_prove s prover) h)
  | verify verifier =>
    exact .inl (issued_of_runStage (verify_eq_runStage s verifier) rfl (delivery?_verify s verifier) h)
  | select | seed | edit | editValue => cases h
  | ticket | requestExecution | requestProof | requestVerification => cases h

theorem holds_target {t : Transition} {artifact : Artifact} (h : t.target.artifacts.Holds artifact) :
    t.changesInputs = false ∧
      (t.source.artifacts.Holds artifact ∨ t.delivery? = some (t.source.ticket, artifact)) := by
  have hQuiet : t.changesInputs = false := by
    rw [← Bool.not_eq_true]
    intro hChanges
    rw [(target_of_changes hChanges).2] at h
    exact Artifacts.not_holds_empty artifact h
  refine ⟨hQuiet, ?_⟩
  have hEffect := t.effect
  rw [Transition.changesInputs] at hQuiet
  generalize t.event? = event at hEffect hQuiet
  cases hEffect with
  | unchanged hTarget => exact .inl (hTarget ▸ h)
  | rejected _ hTarget =>
    rw [hTarget] at h
    exact .inl h
  | stored stored hDelivery hTarget =>
    rw [hTarget] at h
    rcases Artifacts.holds_store h with rfl | hBefore
    · exact .inr hDelivery
    · exact .inl hBefore
  | committed | selected | seeded => cases hQuiet

/-- Completions are delivered with tickets that were issued before. -/
def OwnTickets (history : List Transition) : Prop :=
  ∀ earlier t later ticket, history = earlier ++ t :: later → t.operation.redeemed? = some ticket →
    ∃ u ∈ earlier, u.issued? = some ticket

/-- The artifact was delivered under a ticket, and since that was issued nothing has changed. -/
def DeliveredFresh (history : List Transition) (artifact : Artifact) : Prop :=
  ∃ earlier t later ticket, history = earlier ++ t :: later ∧ t.issued? = some ticket ∧
    (∀ u ∈ later, u.changesInputs = false) ∧
      ∃ u ∈ t :: later, u.delivery? = some (ticket, artifact)

theorem DeliveredFresh.concat {history : List Transition} {artifact : Artifact}
    (h : DeliveredFresh history artifact) {t : Transition} (hQuiet : t.changesInputs = false) :
    DeliveredFresh (history ++ [t]) artifact := by
  obtain ⟨earlier, u, later, ticket, rfl, hIssued, hLater, v, hv, hDelivery⟩ := h
  refine ⟨earlier, u, later ++ [t], ticket, by simp, hIssued, ?_, v, ?_, hDelivery⟩
  · rw [List.forall_mem_append]
    exact ⟨hLater, by simpa using hQuiet⟩
  · rw [← List.cons_append]
    exact List.mem_append_left _ hv

theorem OwnTickets.of_concat {history : List Transition} {t : Transition}
    (h : OwnTickets (history ++ [t])) : OwnTickets history := by
  intro earlier u later ticket hHistory hRedeemed
  exact h earlier u (later ++ [t]) ticket (by simp [hHistory]) hRedeemed

theorem deliveredFresh_of_holds {first : Session} (hFirst : first.artifacts = {})
    {operations : List Operation} (hOwn : OwnTickets (first.history operations))
    (hBound : changeCount (first.history operations) < Word.bound64) {artifact : Artifact}
    (h : (first.run operations).artifacts.Holds artifact) :
    DeliveredFresh (first.history operations) artifact := by
  induction operations using List.reverseRecOn with
  | nil =>
    rw [run, hFirst] at h
    exact absurd h (Artifacts.not_holds_empty artifact)
  | append_singleton before operation ih =>
    let t : Transition := ⟨first.run before, operation⟩
    have hConcat : first.history (before ++ [operation]) = first.history before ++ [t] :=
      history_concat first before operation
    rw [run_concat] at h
    rw [hConcat] at hOwn hBound ⊢
    have hBefore : changeCount (first.history before) < Word.bound64 := by
      rw [changeCount, List.countP_append] at hBound
      exact Nat.lt_of_le_of_lt (Nat.le_add_right _ _) hBound
    obtain ⟨hQuiet, hSource | hDelivery⟩ := @holds_target t artifact h
    · exact (ih hOwn.of_concat hBefore hSource).concat hQuiet
    rcases issued_or_redeemed_of_delivery hDelivery with hIssued | hRedeemed
    · exact ⟨first.history before, t, [], _, rfl, hIssued, by simp, t, by simp, hDelivery⟩
    · -- The ticket is still current, so nothing has changed since it was issued.
      obtain ⟨u, hu, hIssued⟩ := hOwn (first.history before) t [] _ rfl hRedeemed
      obtain ⟨earlier, later, hHistory⟩ := List.append_of_mem hu
      have hLater := (issued_current_iff hBefore hHistory hIssued).mp rfl
      refine ⟨earlier, u, later ++ [t], _, by simp [hHistory], hIssued, ?_, t, by simp, hDelivery⟩
      rw [List.forall_mem_append]
      exact ⟨hLater, by simpa using hQuiet⟩

structure KeepsCurrent (history : List Transition) (s : Session) : Prop where
  discarded_iff : ∀ earlier t later ticket operation, history = earlier ++ t :: later →
    t.issued? = some ticket → operation.redeemed? = some ticket →
      ((s.step operation).1 = .completed (.ok false) ↔ ∃ u ∈ later, u.changesInputs = true)
  discarded : ∀ operation ticket, operation.redeemed? = some ticket →
    (s.step operation).1 = .completed (.ok false) → (s.step operation).2 = s
  /-- Any other completion stores what it brings and drops the stages after it, or it answers with
  its error and changes nothing. -/
  taken : ∀ earlier t later ticket operation, history = earlier ++ t :: later →
    t.issued? = some ticket → operation.redeemed? = some ticket → (∀ u ∈ later, u.changesInputs = false) →
      ∃ result, operation.brought? = some result ∧ s.step operation = s.take result
  stored : ∀ artifact, s.artifacts.Holds artifact →
    ∃ earlier t later ticket, history = earlier ++ t :: later ∧ t.issued? = some ticket ∧
      t.source.name = s.name ∧ t.source.program = s.program ∧ t.source.inputs = s.inputs ∧
        ∃ u ∈ t :: later, u.delivery? = some (ticket, artifact)
  cleared : ∀ t ∈ history, t.changesInputs = true → t.target.artifacts = {}

theorem keepsCurrent_history {registry : Registry} {name : String} {first : Session}
    (hStart : start registry name = .ok first) {operations : List Operation}
    (hOwn : OwnTickets (first.history operations))
    (hBound : changeCount (first.history operations) < Word.bound64) :
    KeepsCurrent (first.history operations) (first.run operations) := by
  refine ⟨?_, ?_, ?_, ?_, fun t _ hChanges => (target_of_changes hChanges).2⟩
  · intro earlier t later ticket operation hHistory hIssued hRedeemed
    have hCurrent := issued_current_iff hBound hHistory hIssued
    constructor
    · intro hAnswer
      by_contra hNone
      refine answer_of_current hRedeemed (hCurrent.mpr fun u hu => ?_) hAnswer
      exact Bool.eq_false_iff.mpr fun hChanges => hNone ⟨u, hu, hChanges⟩
    · rintro ⟨u, hu, hChanges⟩
      have hStale : ticket ≠ (first.run operations).ticket := fun hSame => by
        rw [hCurrent.mp hSame u hu] at hChanges
        cases hChanges
      rw [step_of_stale hRedeemed hStale]
  · intro operation ticket hRedeemed hAnswer
    have hStale : ticket ≠ (first.run operations).ticket := fun hSame =>
      answer_of_current hRedeemed hSame hAnswer
    rw [step_of_stale hRedeemed hStale]
  · intro earlier t later ticket operation hHistory hIssued hRedeemed hLater
    exact step_of_current hRedeemed ((issued_current_iff hBound hHistory hIssued).mpr hLater)
  · intro artifact hHolds
    obtain ⟨earlier, t, later, ticket, hHistory, hIssued, hLater, hDelivery⟩ :=
      deliveredFresh_of_holds (artifacts_start hStart) hOwn hBound hHolds
    obtain ⟨hName, hProgram, hInputs⟩ :=
      source_of_not_changes hHistory (issued?_eq_some hIssued).2 hLater
    exact ⟨earlier, t, later, ticket, hHistory, hIssued, hName, hProgram, hInputs, hDelivery⟩

/-- Tickets that were all issued before the first completion are the session's own. -/
theorem ownTickets_append {front back : List Transition} (hFront : ∀ t ∈ front, t.operation.redeemed? = none)
    (hBack : ∀ t ∈ back, ∀ ticket, t.operation.redeemed? = some ticket →
      ∃ u ∈ front, u.issued? = some ticket) : OwnTickets (front ++ back) := by
  intro earlier t later ticket hHistory hRedeemed
  rcases List.append_eq_append_iff.mp hHistory with ⟨between, rfl, hBetween⟩ | ⟨between, rfl, hBetween⟩
  · have hMember : t ∈ back := hBetween ▸ List.mem_append_right _ List.mem_cons_self
    obtain ⟨u, hu, hIssued⟩ := hBack t hMember ticket hRedeemed
    exact ⟨u, List.mem_append_left _ hu, hIssued⟩
  · cases between with
    | nil =>
      have hMember : t ∈ back := by
        rw [← List.nil_append back, ← hBetween]
        exact List.mem_cons_self
      obtain ⟨u, hu, hIssued⟩ := hBack t hMember ticket hRedeemed
      exact ⟨u, by rwa [List.append_nil] at hu, hIssued⟩
    | cons u rest =>
      obtain ⟨rfl, -⟩ := List.cons.inj hBetween
      rw [hFront t (by simp)] at hRedeemed
      cases hRedeemed

def sampleRequests : List Operation :=
  [.requestExecution, .seed [], .requestExecution]

def sampleCompletions : List Operation :=
  [.completeExecution ⟨0⟩ (.error (.backend "stopped")), .completeExecution ⟨1⟩ (.ok ⟨[1, 2], none⟩)]

/-- An error that comes too late is passed over, and what comes in time is stored. -/
theorem keepsCurrent_sample :
    KeepsCurrent (sample.history (sampleRequests ++ sampleCompletions))
        (sample.run (sampleRequests ++ sampleCompletions)) ∧
      (sample.run (sampleRequests ++ sampleCompletions)).artifacts.Holds (.execution ⟨[1, 2], none⟩) := by
  have hOwn : OwnTickets (sample.history (sampleRequests ++ sampleCompletions)) := by
    rw [history_append]
    refine ownTickets_append (by simp [sampleRequests, history, Operation.redeemed?]) ?_
    have hFirst : Transition.issued? ⟨sample, .requestExecution⟩ = some ⟨0⟩ := rfl
    have hSecond : Transition.issued? ⟨sample.seed [], .requestExecution⟩ = some ⟨1⟩ := rfl
    simp [sampleRequests, sampleCompletions, history, Operation.redeemed?, step, hFirst, hSecond]
  refine ⟨keepsCurrent_history start_sample hOwn ?_, rfl⟩
  exact Nat.lt_of_le_of_lt List.countP_le_length (by decide)

end Session

end CircuitForm
