import Mathlib.Data.List.Nodup
import CircuitForm.Proofs.Json.Reading

/-!
# Members in any order

An object may have the members it needs in any order and others among them. A reader that goes
through it knows of a value as soon as its member has come by, so its state is told by which
names have been seen.
-/

namespace CircuitForm.Json

variable {α σ : Type} {known members before : Entries Json}

/-- All that is known and, anywhere in between, members of other names. -/
def Rearranged (known members : Entries Json) : Prop :=
  ∃ extras : Entries Json, members.Perm (known ++ extras) ∧ ∀ extra ∈ extras, extra.1 ∉ known.names

def Arranged (known : Entries Json) (json : Json) : Prop :=
  ∃ members, json = .object members ∧ Rearranged known members

theorem Rearranged.refl (known : Entries Json) : Rearranged known known :=
  ⟨[], by rw [List.append_nil], nofun⟩

theorem Arranged.refl (known : Entries Json) : Arranged known (.object known) :=
  ⟨known, rfl, .refl known⟩

namespace Rearranged

theorem mem (h : Rearranged known members) {entry : String × Json} (hEntry : entry ∈ known) :
    entry ∈ members := by
  obtain ⟨extras, hPerm, -⟩ := h
  exact hPerm.mem_iff.mpr (List.mem_append_left _ hEntry)

theorem mem_names (h : Rearranged known members) {name : String} (hName : name ∈ known.names) :
    name ∈ members.names := by
  obtain ⟨entry, hEntry, rfl⟩ := List.mem_map.mp hName
  exact List.mem_map_of_mem (h.mem hEntry)

/-- A member that is read is a known one, of a name that has not come yet, or of no known name. -/
theorem cases_of_prefix (h : Rearranged known members) (hDistinct : known.Distinct)
    {entry : String × Json} (hPrefix : before ++ [entry] <+: members) :
    (entry ∈ known ∧ entry.1 ∉ before.names) ∨ entry.1 ∉ known.names := by
  obtain ⟨extras, hPerm, hExtras⟩ := h
  have hEntry : entry ∈ known ++ extras := hPerm.mem_iff.mp (hPrefix.subset (by simp))
  rcases List.mem_append.mp hEntry with hKnown | hExtra
  · have hName : entry.1 ∈ known.names := List.mem_map_of_mem hKnown
    have hNoExtra : entry.1 ∉ extras.names := by
      intro hMember
      obtain ⟨extra, hExtra, hSame⟩ := List.mem_map.mp hMember
      exact hExtras extra hExtra (hSame ▸ hName)
    -- The name is written once in all, so it cannot have been there before.
    have hOnce : members.names.count entry.1 = 1 := by
      have hCount := (hPerm.map Prod.fst).count_eq entry.1
      rw [List.map_append, List.count_append] at hCount
      rw [Entries.names, hCount]
      have hFirst : (known.map Prod.fst).count entry.1 = 1 := List.count_eq_one_of_mem hDistinct hName
      have hSecond : (extras.map Prod.fst).count entry.1 = 0 := List.count_eq_zero_of_not_mem hNoExtra
      rw [hFirst, hSecond]
    have hBefore : (before ++ [entry]).names.count entry.1 ≤ members.names.count entry.1 :=
      (hPrefix.sublist.map Prod.fst).count_le entry.1
    rw [Entries.names_append, List.count_append, hOnce] at hBefore
    refine .inl ⟨hKnown, fun hMember => ?_⟩
    have hSeen := List.count_pos_iff.mpr hMember
    have hLast : (Entries.names [entry]).count entry.1 = 1 := List.count_singleton_self
    omega
  · exact .inr (hExtras entry hExtra)

theorem value_of_prefix (h : Rearranged known members) (hDistinct : known.Distinct) {name : String}
    {json value : Json} (hPrefix : before ++ [(name, json)] <+: members) (hKnown : (name, value) ∈ known) :
    json = value ∧ name ∉ before.names := by
  rcases h.cases_of_prefix hDistinct hPrefix with ⟨hEntry, hFresh⟩ | hName
  · have hFirst := Entries.lookup_of_mem hDistinct hEntry
    have hSecond := Entries.lookup_of_mem hDistinct hKnown
    exact ⟨Option.some.inj (hFirst.symm.trans hSecond), hFresh⟩
  · exact absurd (List.mem_map_of_mem hKnown) hName

end Rearranged

/-- The value of a name, once a member of that name has come. -/
def seen (name : String) (value : α) (before : Entries Json) : Option α :=
  if name ∈ before.names then some value else none

@[simp] theorem seen_nil (name : String) (value : α) : seen name value [] = none := rfl

@[simp] theorem seen_append_singleton (name : String) (value : α) (before : Entries Json) (entry : String × Json) :
    seen name value (before ++ [entry]) = if entry.1 = name then some value else seen name value before := by
  simp only [seen, Entries.names_append, Entries.names_cons, Entries.names_nil, List.mem_append,
    List.mem_singleton, eq_comm (a := entry.1)]
  by_cases hName : name = entry.1 <;> simp [hName]

theorem seen_of_mem {name : String} (value : α) (h : name ∈ before.names) : seen name value before = some value :=
  if_pos h

theorem seen_of_not_mem {name : String} (value : α) (h : name ∉ before.names) : seen name value before = none :=
  if_neg h

theorem required_seen {name : String} (value : α) (h : name ∈ members.names) :
    required name (seen name value members) = .ok value := by
  rw [seen_of_mem value h]
  rfl

/-- A loop over members whose state is told by those it has gone through. -/
theorem foldlM_of_prefixes {ε : Type} {step : σ → String × Json → Except ε σ} (state : Entries Json → σ)
    (hStep : ∀ before entry, before ++ [entry] <+: members →
      step (state before) entry = .ok (state (before ++ [entry]))) :
    members.foldlM step (state []) = .ok (state members) := by
  induction members using List.reverseRecOn with
  | nil => rfl
  | append_singleton front entry ih =>
    have hFront := ih fun before entry hPrefix => hStep before entry (hPrefix.trans (List.prefix_append front _))
    rw [List.foldlM_append]
    refine bind_eq_ok_iff.mpr ⟨_, hFront, ?_⟩
    exact bind_eq_ok_iff.mpr ⟨_, hStep front entry (List.prefix_refl _), rfl⟩

theorem Decoder.Takes.field_seen {β : Type} {decoder : Decoder β} {name : String} {json : Json} {value : β}
    (hReads : Decoder.Reads decoder json value) (hFresh : name ∉ before.names) (depth : Nat) (store : β → σ)
    (state : σ) :
    Takes depth json (Decoder.field (seen name value before) decoder depth store) state (store value) := by
  rw [seen_of_not_mem value hFresh]
  exact .field hReads depth store state

/-- A record is read from its members in any order, if each has its place in the state and the
others leave the state alone. -/
theorem Decoder.reads_of_arranged {expected : String} {start : σ} {field : Nat → σ → String → Member σ}
    {finish : σ → Except Reason α} {row : Decoder α} (state : Entries Json → σ) {value : α} {json : Json}
    (hDistinct : known.Distinct) (hStart : state [] = start)
    (hKnown : ∀ depth before entry, entry ∈ known → entry.1 ∉ before.names →
      Takes depth entry.2 (field depth (state before) entry.1) (state before) (state (before ++ [entry])))
    (hOther : ∀ depth before entry, entry.1 ∉ known.names →
      field depth (state before) entry.1 = .unknown ∧ state (before ++ [entry]) = state before)
    (hFinish : ∀ members, (∀ name ∈ known.names, name ∈ members.names) → finish (state members) = .ok value)
    (h : Arranged known json) : Reads (record expected start field finish row) json value := by
  obtain ⟨members, rfl, hMembers⟩ := h
  subst hStart
  refine reads_record (fun depth before entry hPrefix => ?_) (hFinish members fun _ => hMembers.mem_names)
  rcases hMembers.cases_of_prefix hDistinct hPrefix with ⟨hEntry, hFresh⟩ | hName
  · exact hKnown depth before entry hEntry hFresh
  · exact .inl (hOther depth before entry hName)

end CircuitForm.Json
