import CircuitForm.Proofs.Json.Consumption

/-!
# Objects and lists as they are written

A verbatim reader keeps every member of an object. Any other reader goes through the same text
with the same loop, so what it comes to is a matter of the members one by one.
-/

namespace CircuitForm.Json

variable {α σ τ : Type} {text rest : Bytes} {nested : Bytes → Except Fault (Json × Bytes)}
  {fuel : Nat} {first : Bool}

theorem member_eq_ok_iff {keep : Keeping} {entries next : Entries Json} {name : String} :
    member keep nested entries name text = .ok (next, rest) ↔
      ∃ inside json, colon text = .ok inside ∧ nested inside = .ok (json, rest) ∧
        next = keep.add entries name json := by
  constructor
  · intro h
    obtain ⟨inside, hColon, hMore⟩ := bind_eq_ok_iff.mp h
    obtain ⟨⟨json, after⟩, hValue, hSame⟩ := bind_eq_ok_iff.mp hMore
    cases hSame
    exact ⟨inside, json, hColon, within_eq_ok_iff.mp hValue, rfl⟩
  · rintro ⟨inside, json, hColon, hValue, rfl⟩
    refine bind_eq_ok_iff.mpr ⟨_, hColon, ?_⟩
    exact bind_eq_ok_iff.mpr ⟨_, within_eq_ok_iff.mpr hValue, rfl⟩

theorem prefix_of_members {front members : Entries Json}
    (h : Json.members (member .verbatim nested) fuel first front text = .ok (members, rest)) :
    front <+: members := by
  refine members_induction (motive := fun entries => front <+: entries) ?_ (List.prefix_refl front) h
  intro state name text next rest hState hNext
  obtain ⟨inside, json, -, -, rfl⟩ := member_eq_ok_iff.mp hNext
  exact hState.trans (List.prefix_append state _)

/-- Two loops go through a text together when each member keeps their states related. -/
theorem members_of_related {step : σ → String → Bytes → Except Fault (σ × Bytes)}
    {other : τ → String → Bytes → Except Fault (τ × Bytes)} {Related : σ → τ → Prop}
    (hStep : ∀ state beside name text next rest, Related state beside →
      step state name text = .ok (next, rest) →
      ∃ besideNext, other beside name text = .ok (besideNext, rest) ∧ Related next besideNext)
    {state last : σ} {beside : τ} (hState : Related state beside)
    (h : members step fuel first state text = .ok (last, rest)) :
    ∃ besideLast, members other fuel first beside text = .ok (besideLast, rest) ∧ Related last besideLast := by
  induction fuel generalizing first state beside text with
  | zero => cases h
  | succ fuel ih =>
    obtain ⟨⟨found, behind⟩, hNext, hMore⟩ := bind_eq_ok_iff.mp h
    cases found with
    | none =>
      cases hMore
      exact ⟨beside, bind_eq_ok_iff.mpr ⟨_, hNext, rfl⟩, hState⟩
    | some name =>
      obtain ⟨⟨next, after⟩, hMember, hRest⟩ := bind_eq_ok_iff.mp hMore
      obtain ⟨besideNext, hBeside, hRelated⟩ := hStep _ _ _ _ _ _ hState hMember
      obtain ⟨besideLast, hLast, hEnd⟩ := ih hRelated hRest
      exact ⟨besideLast, bind_eq_ok_iff.mpr ⟨_, hNext, bind_eq_ok_iff.mpr ⟨_, hBeside, hLast⟩⟩, hEnd⟩

/-- A loop whose state is told by the members so far, each of which it takes in that state. -/
theorem members_of_written {step : σ → String → Bytes → Except Fault (σ × Bytes)} (state : Entries Json → σ)
    {front members : Entries Json}
    (hStep : ∀ before entry, before ++ [entry] <+: members → ∀ text inside rest,
      colon text = .ok inside → nested inside = .ok (entry.2, rest) →
      step (state before) entry.1 text = .ok (state (before ++ [entry]), rest))
    (h : Json.members (member .verbatim nested) fuel first front text = .ok (members, rest)) :
    Json.members step fuel first (state front) text = .ok (state members, rest) := by
  induction fuel generalizing first front text with
  | zero => cases h
  | succ fuel ih =>
    obtain ⟨⟨found, behind⟩, hNext, hMore⟩ := bind_eq_ok_iff.mp h
    refine bind_eq_ok_iff.mpr ⟨_, hNext, ?_⟩
    cases found with
    | none =>
      cases hMore
      rfl
    | some name =>
      obtain ⟨⟨next, after⟩, hMember, hRest⟩ := bind_eq_ok_iff.mp hMore
      obtain ⟨inside, json, hColon, hValue, rfl⟩ := member_eq_ok_iff.mp hMember
      have hTaken := hStep front (name, json) (prefix_of_members hRest) behind inside after hColon hValue
      exact bind_eq_ok_iff.mpr ⟨_, hTaken, ih hRest⟩

/-- Elements that another reader makes something of, one by one. -/
theorem elements_of_written {item : Bytes → Except Fault (α × Bytes)} {items : List Json} {values : List α}
    (hItems : List.Forall₂ (fun json value => ∀ text rest, nested text = .ok (json, rest) →
      item text = .ok (value, rest)) items values) {index : Nat}
    (h : elements nested fuel index text = .ok (items, rest)) :
    elements item fuel index text = .ok (values, rest) := by
  induction fuel generalizing index text items values with
  | zero => cases h
  | succ fuel ih =>
    obtain ⟨⟨more, found⟩, hNext, hMore⟩ := bind_eq_ok_iff.mp h
    refine bind_eq_ok_iff.mpr ⟨_, hNext, ?_⟩
    cases more with
    | false =>
      cases hMore
      cases hItems
      rfl
    | true =>
      obtain ⟨⟨json, after⟩, hJson, hRest⟩ := bind_eq_ok_iff.mp hMore
      obtain ⟨⟨others, last⟩, hOthers, hSame⟩ := bind_eq_ok_iff.mp hRest
      cases hSame
      cases hItems with
      | cons hValue hValues =>
        have hTaken := hValue _ _ (within_eq_ok_iff.mp hJson)
        refine bind_eq_ok_iff.mpr ⟨_, within_eq_ok_iff.mpr hTaken, ?_⟩
        exact bind_eq_ok_iff.mpr ⟨_, ih hValues hOthers, rfl⟩

namespace Decoder

variable {item : Bytes → Except Fault (α × Bytes)}

/-- The entries of a map are put one by one, so the last of a name stays. -/
theorem entries_of_written {members : Entries Json} {entries : Entries α}
    (hMembers : Entries.Aligned (fun json value => ∀ text rest, nested text = .ok (json, rest) →
      item text = .ok (value, rest)) members entries)
    (h : Json.members (member .verbatim nested) fuel first [] text = .ok (members, rest)) :
    Json.members (entry item) fuel first [] text = .ok (Entries.ofList entries, rest) := by
  have hAll : Entries.ofList (entries.take members.length) = Entries.ofList entries := by
    rw [List.Forall₂.length_eq hMembers, List.take_length]
  rw [← hAll]
  refine members_of_written (fun before => Entries.ofList (entries.take before.length))
    (fun before member hPrefix text inside rest hColon hValue => ?_) h
  obtain ⟨behind, hSplit⟩ := hPrefix
  have hAt := Entries.getElem?_rel_of_forall₂ hMembers before.length
  have hMember : members[before.length]? = some member := by
    rw [← hSplit, List.append_assoc, List.getElem?_append_right (Nat.le_refl _), Nat.sub_self]
    rfl
  rw [hMember] at hAt
  generalize hEntry : entries[before.length]? = found at hAt
  cases hAt with
  | @some _ found hFound =>
    have hTake : entries.take (before ++ [member]).length = entries.take before.length ++ [found] := by
      rw [List.length_append, List.length_singleton, List.take_add_one, hEntry]
      rfl
    rw [hTake, Entries.ofList_append_singleton, ← hFound.1]
    exact entry_ok_iff.mpr ⟨inside, found.2, hColon, hFound.2 inside rest hValue, rfl⟩

/-- Behind the entries of a map are members, all of which have been written. -/
theorem written_of_entries {Reads : Json → α → Prop}
    (hItem : ∀ text value rest, item text = .ok (value, rest) →
      ∃ json, nested text = .ok (json, rest) ∧ Reads json value) {entries : Entries α}
    (h : Json.members (entry item) fuel first [] text = .ok (entries, rest)) :
    ∃ members values, Json.members (member .verbatim nested) fuel first [] text = .ok (members, rest) ∧
      Entries.Aligned Reads members values ∧ entries = Entries.ofList values := by
  have hStep : ∀ (state : Entries α) (beside : Entries Json) name text next rest,
      (∃ values, Entries.Aligned Reads beside values ∧ state = Entries.ofList values) →
      entry item state name text = .ok (next, rest) →
      ∃ besideNext, member .verbatim nested beside name text = .ok (besideNext, rest) ∧
        ∃ values, Entries.Aligned Reads besideNext values ∧ next = Entries.ofList values := by
    rintro state beside name text next rest ⟨values, hValues, rfl⟩ hNext
    obtain ⟨inside, value, hColon, hValue, rfl⟩ := entry_ok_iff.mp hNext
    obtain ⟨json, hJson, hReads⟩ := hItem inside value rest hValue
    refine ⟨_, member_eq_ok_iff.mpr ⟨inside, json, hColon, hJson, rfl⟩, _,
      hValues.append_singleton name hReads, ?_⟩
    exact (Entries.ofList_append_singleton values (name, value)).symm
  obtain ⟨members, hMembers, values, hValues⟩ := members_of_related hStep ⟨[], .nil, rfl⟩ h
  exact ⟨members, values, hMembers, hValues⟩

end Decoder

end CircuitForm.Json
