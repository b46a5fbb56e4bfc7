import CircuitForm.Proofs.Json.Skipping
import CircuitForm.Proofs.Json.Written

/-!
# What decoders make of a value

A decoder reads a value of its type in some JSON if it takes every text of that JSON for the value,
whatever the text looks like and however deep it may go on. For records the members may come in
any order, and those that the record does not know may be anything.
-/

namespace CircuitForm.Json

variable {α σ : Type} {text rest : Bytes} {keep : Keeping} {depth : Nat}

theorem value_eq_scalar {b : UInt8} {unread : Bytes} (hText : Scan.skipBlank text = b :: unread)
    (hBracket : b ≠ Ascii.openBracket) (hBrace : b ≠ Ascii.openBrace) :
    value keep depth text = scalar (b :: unread) := by
  cases depth <;> rw [value, valueWith, hText] <;> exact (if_neg hBracket).trans (if_neg hBrace)

/-- What is neither nested nor a number is one scalar in the text. -/
theorem scalar_of_value {json : Json} (h : value keep depth text = .ok (json, rest)) (hDepth : json.depth = 0)
    (hNumber : ∀ n, json ≠ .number n) :
    ∃ b unread, Scan.skipBlank text = b :: unread ∧ scalar (b :: unread) = .ok (json, rest) := by
  obtain ⟨b, unread, hText, -, -, hScalar⟩ | ⟨d, inside, after, items, -, -, rfl, -⟩ |
    ⟨d, inside, after, -, -, hBody, -⟩ := value_cases h
  · exact ⟨b, unread, hText, hScalar⟩
  · cases hDepth
  · obtain ⟨entries, rfl⟩ | ⟨-, n, rfl⟩ := objectBody_cases hBody
    · cases hDepth
    · exact absurd rfl (hNumber n)

theorem exists_of_value_null (h : value keep depth text = .ok (.null, rest)) :
    ∃ unread, Scan.skipBlank text = Ascii.ofChar 'n' :: unread ∧
      Scan.word (Bytes.ofString "ull") unread = .ok rest := by
  obtain ⟨b, unread, hText, hScalar⟩ := scalar_of_value h rfl fun _ => nofun
  obtain ⟨rfl, -, hWord⟩ | ⟨-, hSame, -⟩ | ⟨-, hSame, -⟩ | ⟨-, -, -, -, n, hSame, -⟩ | ⟨-, s, hSame, -⟩ :=
    scalar_cases hScalar
  · exact ⟨unread, hText, hWord⟩
  all_goals cases hSame

theorem exists_of_value_string {s : String} (h : value keep depth text = .ok (.string s, rest)) :
    ∃ unread, Scan.skipBlank text = Ascii.quote :: unread ∧ Scan.string unread = .ok (s, rest) := by
  obtain ⟨b, unread, hText, hScalar⟩ := scalar_of_value h rfl fun _ => nofun
  obtain ⟨-, hSame, -⟩ | ⟨-, hSame, -⟩ | ⟨-, hSame, -⟩ | ⟨-, -, -, -, n, hSame, -⟩ |
    ⟨rfl, _, hSame, hString⟩ := scalar_cases hScalar
  case inr.inr.inr.inr =>
    cases hSame
    exact ⟨unread, hText, hString⟩
  all_goals cases hSame

theorem value_eq_array_iff {items : List Json} :
    value keep depth text = .ok (.array items, rest) ↔
      ∃ d inside after, depth = d + 1 ∧ Scan.skipBlank text = Ascii.openBracket :: inside ∧
        elements (value keep d) (inside.length + 1) 0 inside = .ok (items, after) ∧
        endList after = .ok rest := by
  constructor
  · intro h
    obtain ⟨b, unread, -, -, -, hScalar⟩ | ⟨d, inside, after, items, hDepth, hText, hSame, hItems, hEnd⟩ |
      ⟨d, inside, after, -, -, hBody, -⟩ := value_cases h
    · cases depth_of_scalar hScalar
    · cases hSame
      exact ⟨d, inside, after, hDepth, hText, hItems, hEnd⟩
    · obtain ⟨entries, hSame⟩ | ⟨-, n, hSame⟩ := objectBody_cases hBody <;> cases hSame
  · rintro ⟨d, inside, after, rfl, hText, hItems, hEnd⟩
    rw [value, valueWith, hText]
    dsimp only
    rw [if_pos rfl]
    exact closing_eq_ok_iff.mpr ⟨_, map_eq_ok_iff.mpr ⟨_, hItems, rfl⟩, hEnd⟩

theorem value_eq_object_iff {entries : Entries Json} :
    value keep depth text = .ok (.object entries, rest) ↔
      ∃ d inside after, depth = d + 1 ∧ Scan.skipBlank text = Ascii.openBrace :: inside ∧
        members (member keep (value keep d)) (inside.length + 1) true [] inside = .ok (entries, after) ∧
        (keep = .data → entries.names.head? ≠ some reservedKey) ∧ endObject after = .ok rest := by
  have hBody : ∀ d, ∀ inside after : Bytes, objectBody keep (value keep d) inside = .ok (.object entries, after) ↔
      _ := fun d _ _ => objectBody_eq_ok_iff fun _ _ _ => length_lt_of_value
  constructor
  · intro h
    obtain ⟨b, unread, -, -, -, hScalar⟩ | ⟨d, inside, after, items, -, -, hSame, -⟩ |
      ⟨d, inside, after, hDepth, hText, hObject, hEnd⟩ := value_cases h
    · cases depth_of_scalar hScalar
    · cases hSame
    · obtain ⟨hMembers, hKey⟩ := (hBody d inside after).mp hObject
      exact ⟨d, inside, after, hDepth, hText, hMembers, hKey, hEnd⟩
  · rintro ⟨d, inside, after, rfl, hText, hMembers, hKey, hEnd⟩
    rw [value, valueWith, hText]
    dsimp only
    rw [if_neg (by decide), if_pos rfl]
    exact closing_eq_ok_iff.mpr ⟨_, (hBody d inside after).mpr ⟨hMembers, hKey⟩, hEnd⟩

theorem ofText_eq_ok_iff {json : Json} :
    ofText text = .ok json ↔ ∃ rest, value .data depthLimit text = .ok (json, rest) ∧ atEnd rest = .ok () := by
  constructor
  · intro h
    obtain ⟨⟨found, rest⟩, hFound, hMore⟩ := bind_eq_ok_iff.mp h
    obtain ⟨_, hEnd, hSame⟩ := bind_eq_ok_iff.mp hMore
    cases hSame
    exact ⟨rest, hFound, hEnd⟩
  · rintro ⟨rest, hFound, hEnd⟩
    exact bind_eq_ok_iff.mpr ⟨_, hFound, bind_eq_ok_iff.mpr ⟨_, hEnd, rfl⟩⟩

theorem first_ne_of_ne_null {json : Json} (hNull : json ≠ .null) (h : value keep depth text = .ok (json, rest)) :
    ∃ b unread, Scan.skipBlank text = b :: unread ∧ b ≠ Ascii.ofChar 'n' := by
  obtain ⟨b, unread, hText, -, -, hScalar⟩ | ⟨d, inside, after, items, -, hText, -⟩ |
    ⟨d, inside, after, -, hText, -⟩ := value_cases h
  · refine ⟨b, unread, hText, ?_⟩
    rintro rfl
    obtain ⟨-, hSame, -⟩ | ⟨hByte, -⟩ | ⟨hByte, -⟩ | ⟨hByte, -⟩ | ⟨hByte, -⟩ := scalar_cases hScalar
    · exact hNull hSame
    · exact absurd hByte (by decide)
    · exact absurd hByte (by decide)
    · exact hByte rfl
    · exact absurd hByte (by decide)
  · exact ⟨_, _, hText, by decide⟩
  · exact ⟨_, _, hText, by decide⟩

/-- What is read as data is plain, whatever is written. -/
theorem plain_of_value {json : Json} (h : value .data depth text = .ok (json, rest)) : json.Plain := by
  induction depth using Nat.strongRecOn generalizing text rest json with
  | ind depth ih =>
    cases json with
    | null | bool _ | number _ | string _ => trivial
    | array items =>
      obtain ⟨d, inside, after, rfl, -, hItems, -⟩ := value_eq_array_iff.mp h
      exact plain_array_iff.mpr (forall_of_elements (fun _ _ _ => ih d (Nat.lt_succ_self d)) hItems)
    | object entries =>
      obtain ⟨d, inside, after, rfl, -, hMembers, hKey, -⟩ := value_eq_object_iff.mp h
      have hNone : Entries.Distinct ([] : Entries Json) ∧ ∀ entry ∈ ([] : Entries Json), entry.2.Plain :=
        ⟨List.nodup_nil, nofun⟩
      have hPlain : Entries.Distinct entries ∧ ∀ entry ∈ entries, entry.2.Plain := by
        refine members_induction (motive := fun entries : Entries Json =>
          Entries.Distinct entries ∧ ∀ entry ∈ entries, entry.2.Plain) ?_ hNone hMembers
        intro state name text next rest hState hNext
        obtain ⟨inside, json, -, hJson, rfl⟩ := member_eq_ok_iff.mp hNext
        refine ⟨hState.1.insert name json, fun entry hEntry => ?_⟩
        rcases Entries.mem_of_mem_insert hEntry with rfl | hOld
        · exact ih d (Nat.lt_succ_self d) hJson
        · exact hState.2 entry hOld
      exact plain_object_iff.mpr ⟨hPlain.1, hKey rfl, hPlain.2⟩

/-- What a decoder may keep of a value that need not be there: data that is not `null`. -/
structure Kept (json : Json) (d : Nat) : Prop where
  not_null : json ≠ .null
  plain : json.Plain
  depth : json.depth ≤ d

theorem kept_of_optional {json : Json} (h : Decoder.optional Decoder.json depth text = .ok (some json, rest)) :
    json.Kept depth := by
  rw [Decoder.optional] at h
  split at h
  · cases h
  · rename_i b unread hText
    split at h
    · obtain ⟨after, -, hSame⟩ := map_eq_ok_iff.mp h
      cases hSame
    · rename_i hByte
      obtain ⟨⟨found, after⟩, hFound, hSame⟩ := map_eq_ok_iff.mp h
      cases hSame
      refine ⟨?_, plain_of_value hFound, depth_le_of_value hFound⟩
      rintro rfl
      obtain ⟨inside, hNull, -⟩ := exists_of_value_null hFound
      rw [Scan.skipBlank_of_skipBlank hText] at hNull
      exact hByte (List.cons.inj hNull).1

theorem value_data_of_scalar {json : Json} (hScalar : json.depth = 0)
    (h : value .verbatim depth text = .ok (json, rest)) : value .data depth text = .ok (json, rest) := by
  obtain ⟨b, unread, hText, hBracket, hBrace, hRead⟩ | ⟨d, inside, after, items, -, -, rfl, -⟩ |
    ⟨d, inside, after, -, -, hBody, -⟩ := value_cases h
  · rw [value_eq_scalar hText hBracket hBrace]
    exact hRead
  · cases hScalar
  · obtain ⟨entries, rfl⟩ | ⟨hData, -⟩ := objectBody_cases hBody
    · cases hScalar
    · cases hData

namespace Decoder

/-- The decoder takes every text of the JSON for the value, and leaves what is behind it. -/
def Reads (decoder : Decoder α) (json : Json) (value : α) : Prop :=
  ∀ depth text rest, Json.value .verbatim depth text = .ok (json, rest) →
    decoder depth text = .ok (value, rest)

theorem reads_json {json : Json} (hPlain : json.Plain) : Reads Decoder.json json json := by
  induction json with
  | null | bool _ | number _ | string _ => exact fun _ _ _ h => value_data_of_scalar rfl h
  | array items ih =>
    intro depth text rest h
    obtain ⟨d, inside, after, hDepth, hText, hItems, hEnd⟩ := value_eq_array_iff.mp h
    refine value_eq_array_iff.mpr ⟨d, inside, after, hDepth, hText, ?_, hEnd⟩
    refine elements_of_written (List.forall₂_same.mpr fun item hItem => ?_) hItems
    exact ih item hItem (plain_array_iff.mp hPlain item hItem) d
  | object members ih =>
    obtain ⟨hDistinct, hFirst, hMembers⟩ := plain_object_iff.mp hPlain
    intro depth text rest h
    obtain ⟨d, inside, after, hDepth, hText, hRead, -, hEnd⟩ := value_eq_object_iff.mp h
    refine value_eq_object_iff.mpr ⟨d, inside, after, hDepth, hText, ?_, fun _ => hFirst, hEnd⟩
    refine members_of_written id (fun before entry hPrefix text inside rest hColon hValue => ?_) hRead
    have hEntry : entry ∈ members := hPrefix.subset (by simp)
    have hFresh : entry.1 ∉ Entries.names before := by
      have hSome : Entries.Distinct (before ++ [entry]) :=
        List.Nodup.sublist (hPrefix.sublist.map Prod.fst) hDistinct
      rw [Entries.Distinct, Entries.names_append, List.nodup_append] at hSome
      exact fun hMem => hSome.2.2 entry.1 hMem entry.1 (List.mem_singleton_self _) rfl
    refine member_eq_ok_iff.mpr ⟨inside, entry.2, hColon, ih entry hEntry (hMembers entry hEntry) d _ _ hValue, ?_⟩
    exact (Entries.insert_of_not_mem entry.2 hFresh).symm

theorem reads_string (s : String) : Reads Decoder.string (.string s) s := by
  intro depth text rest h
  obtain ⟨unread, hText, hString⟩ := exists_of_value_string h
  rw [Decoder.string, stringAs, hText]
  exact (if_pos rfl).trans hString

theorem reads_optional_none (decoder : Decoder α) : Reads (optional decoder) .null none := by
  intro depth text rest h
  obtain ⟨unread, hText, hWord⟩ := exists_of_value_null h
  rw [optional, hText]
  dsimp only
  rw [if_pos rfl, hWord]
  rfl

theorem Reads.optional {decoder : Decoder α} {json : Json} {value : α} (hNull : json ≠ .null)
    (hReads : Reads decoder json value) : Reads (optional decoder) json (some value) := by
  intro depth text rest h
  obtain ⟨b, unread, hText, hByte⟩ := first_ne_of_ne_null hNull h
  rw [← value_skipBlank, hText] at h
  rw [Decoder.optional, hText]
  dsimp only
  rw [if_neg hByte, hReads depth _ rest h]
  rfl

theorem named_of_value {known : List (String × α)} {name : String} {value : α}
    (hKnown : known.lookup name = some value) (h : Json.value .verbatim depth text = .ok (.string name, rest)) :
    named known text = .ok (value, rest) := by
  obtain ⟨unread, hText, hString⟩ := exists_of_value_string h
  refine bind_eq_ok_iff.mpr ⟨(name, rest), ?_, ?_⟩
  · rw [stringAs, hText]
    exact (if_pos rfl).trans hString
  · dsimp only
    rw [hKnown]

theorem reads_choice {known : List (String × α)} (nameOf : α → String) {name : String} {value : α}
    (hKnown : known.lookup name = some value) : Reads (choice known nameOf) (.string name) value := by
  intro depth text rest h
  obtain ⟨unread, hText, -⟩ := exists_of_value_string h
  rw [← value_skipBlank, hText] at h
  rw [choice, hText]
  exact (if_pos rfl).trans (named_of_value hKnown h)

theorem reads_list {item : Decoder α} {items : List Json} {values : List α}
    (hItems : List.Forall₂ item.Reads items values) : Reads (list item) (.array items) values := by
  intro depth text rest h
  obtain ⟨d, inside, after, rfl, hText, hRead, hEnd⟩ := value_eq_array_iff.mp h
  refine list_ok_iff.mpr ⟨d, inside, after, rfl, hText, elements_of_written ?_ hRead, hEnd⟩
  exact hItems.imp fun json value hReads => hReads d

theorem reads_map {item : Decoder α} {members : Entries Json} {entries : Entries α}
    (hMembers : Entries.Aligned item.Reads members entries) :
    Reads (map item) (.object members) (Entries.ofList entries) := by
  intro depth text rest h
  obtain ⟨d, inside, after, rfl, hText, hRead, -, hEnd⟩ := value_eq_object_iff.mp h
  refine map_ok_iff.mpr ⟨d, inside, after, rfl, hText, entries_of_written ?_ hRead, hEnd⟩
  exact List.Forall₂.imp (fun json value hReads => ⟨hReads.1, hReads.2 d⟩) hMembers

/-- What a record's state is behind a member, seen from what it is before it: the same if the member
is unknown, and else with what a field's own decoder reads. -/
def Takes (depth : Nat) (json : Json) (member : Member σ) (state next : σ) : Prop :=
  member = .unknown ∧ next = state ∨
    ∃ read, member = .reads read ∧ ∀ text rest, Json.value .verbatim depth text = .ok (json, rest) →
      read text = .ok (next, rest)

theorem Takes.field {β : Type} {decoder : Decoder β} {json : Json} {value : β} (hReads : Reads decoder json value)
    (depth : Nat) (store : β → σ) (state : σ) :
    Takes depth json (field none decoder depth store) state (store value) := by
  refine .inr ⟨_, rfl, fun text rest h => ?_⟩
  dsimp only
  rw [hReads depth text rest h]
  rfl

theorem recordMember_of_takes {field : σ → String → Member σ} {state next : σ} {entry : String × Json}
    (h : Takes depth entry.2 (field state entry.1) state next) {inside : Bytes} (hColon : colon text = .ok inside)
    (hValue : Json.value .verbatim depth inside = .ok (entry.2, rest)) :
    recordMember field state entry.1 text = .ok (next, rest) := by
  rw [recordMember]
  obtain ⟨hUnknown, rfl⟩ | ⟨read, hKnown, hRead⟩ := h
  · rw [hUnknown]
    refine bind_eq_ok_iff.mpr ⟨_, hColon, ?_⟩
    exact bind_eq_ok_iff.mpr ⟨_, within_eq_ok_iff.mpr (Skip.value_of_value hValue), rfl⟩
  · rw [hKnown]
    exact bind_eq_ok_iff.mpr ⟨_, hColon, within_eq_ok_iff.mpr (hRead inside rest hValue)⟩

theorem reads_record {expected : String} {field : Nat → σ → String → Member σ} {finish : σ → Except Reason α}
    {row : Decoder α} {members : Entries Json} {state : Entries Json → σ} {value : α}
    (hField : ∀ depth before entry, before ++ [entry] <+: members →
      Takes depth entry.2 (field depth (state before) entry.1) (state before) (state (before ++ [entry])))
    (hFinish : finish (state members) = .ok value) :
    Reads (record expected (state []) field finish row) (.object members) value := by
  intro depth text rest h
  obtain ⟨d, inside, after, rfl, hText, hRead, -, hEnd⟩ := value_eq_object_iff.mp h
  rw [record, brackets, hText]
  dsimp only
  rw [if_pos (.inr rfl), if_neg (by decide)]
  refine closing_eq_ok_iff.mpr ⟨after, bind_eq_ok_iff.mpr ⟨(state members, after), ?_, ?_⟩, hEnd⟩
  · refine members_of_written state (fun before entry hPrefix text inside rest hColon hValue => ?_) hRead
    exact recordMember_of_takes (hField d before entry hPrefix) hColon hValue
  · dsimp only
    rw [hFinish]

end Decoder

end CircuitForm.Json
