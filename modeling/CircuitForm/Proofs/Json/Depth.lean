import CircuitForm.Json.Decoder
import CircuitForm.Proofs.Json.Value
import CircuitForm.Proofs.Outcome

/-!
# What a reader lets through

What holds of each element, or is kept by each member, holds of a whole list or object that has
been read. In particular a value that is read with so many brackets allowed nests no deeper.
-/

namespace CircuitForm.Json

variable {α σ : Type}

theorem forall_of_elements {item : Bytes → Except Fault (α × Bytes)} {P : α → Prop}
    (hItem : ∀ text value rest, item text = .ok (value, rest) → P value) {fuel index : Nat}
    {text rest : Bytes} {values : List α} (h : elements item fuel index text = .ok (values, rest)) :
    ∀ value ∈ values, P value := by
  induction fuel generalizing index text values with
  | zero => cases h
  | succ fuel ih =>
    obtain ⟨⟨more, found⟩, -, hMore⟩ := bind_eq_ok_iff.mp h
    cases more with
    | false =>
      cases hMore
      nofun
    | true =>
      obtain ⟨⟨value, after⟩, hValue, hRest⟩ := bind_eq_ok_iff.mp hMore
      obtain ⟨⟨others, last⟩, hOthers, hValues⟩ := bind_eq_ok_iff.mp hRest
      cases hValues
      rw [List.forall_mem_cons]
      exact ⟨hItem _ _ _ (within_eq_ok_iff.mp hValue), ih hOthers⟩

theorem members_induction {step : σ → String → Bytes → Except Fault (σ × Bytes)} {motive : σ → Prop}
    (hStep : ∀ state name text next rest, motive state → step state name text = .ok (next, rest) →
      motive next) {fuel : Nat} {first : Bool} {state last : σ} {text rest : Bytes} (hState : motive state)
    (h : members step fuel first state text = .ok (last, rest)) : motive last := by
  induction fuel generalizing first state text with
  | zero => cases h
  | succ fuel ih =>
    obtain ⟨⟨found, behind⟩, -, hFound⟩ := bind_eq_ok_iff.mp h
    cases found with
    | none =>
      cases hFound
      exact hState
    | some name =>
      obtain ⟨⟨next, after⟩, hNext, hRest⟩ := bind_eq_ok_iff.mp hFound
      exact ih (hStep _ _ _ _ _ hState hNext) hRest

/-- A scalar is one of the three words, a number or a string, and its first byte says which. -/
theorem scalar_cases {b : UInt8} {unread rest : Bytes} {json : Json}
    (h : scalar (b :: unread) = .ok (json, rest)) :
    (b = Ascii.ofChar 'n' ∧ json = .null ∧ Scan.word (Bytes.ofString "ull") unread = .ok rest) ∨
    (b = Ascii.ofChar 't' ∧ json = .bool true ∧ Scan.word (Bytes.ofString "rue") unread = .ok rest) ∨
    (b = Ascii.ofChar 'f' ∧ json = .bool false ∧ Scan.word (Bytes.ofString "alse") unread = .ok rest) ∨
    (b ≠ Ascii.ofChar 'n' ∧ b ≠ Ascii.ofChar 't' ∧ b ≠ Ascii.ofChar 'f' ∧
      (b = Ascii.minus || Scan.isDigit b) = true ∧
      ∃ n, json = .number n ∧ Scan.numeral (.endIn .value) (b :: unread) = .ok (n, rest)) ∨
    (b = Ascii.quote ∧ ∃ s, json = .string s ∧ Scan.string unread = .ok (s, rest)) := by
  rw [scalar] at h
  split at h
  · obtain ⟨after, hWord, hSame⟩ := map_eq_ok_iff.mp h
    cases hSame
    exact .inl ⟨‹_›, rfl, hWord⟩
  · split at h
    · obtain ⟨after, hWord, hSame⟩ := map_eq_ok_iff.mp h
      cases hSame
      exact .inr (.inl ⟨‹_›, rfl, hWord⟩)
    · split at h
      · obtain ⟨after, hWord, hSame⟩ := map_eq_ok_iff.mp h
        cases hSame
        exact .inr (.inr (.inl ⟨‹_›, rfl, hWord⟩))
      · split at h
        · obtain ⟨⟨n, after⟩, hNumeral, hSame⟩ := map_eq_ok_iff.mp h
          cases hSame
          exact .inr (.inr (.inr (.inl ⟨‹_›, ‹_›, ‹_›, ‹_›, n, rfl, hNumeral⟩)))
        · split at h
          · obtain ⟨⟨s, after⟩, hString, hSame⟩ := map_eq_ok_iff.mp h
            cases hSame
            exact .inr (.inr (.inr (.inr ⟨‹_›, s, rfl, hString⟩)))
          · cases h

/-- The first byte of a value says whether it is a list, an object or a scalar; the former two
take one bracket of those allowed. -/
theorem value_cases {keep : Keeping} {depth : Nat} {text rest : Bytes} {json : Json}
    (h : value keep depth text = .ok (json, rest)) :
    (∃ b unread, Scan.skipBlank text = b :: unread ∧ b ≠ Ascii.openBracket ∧ b ≠ Ascii.openBrace ∧
      scalar (b :: unread) = .ok (json, rest)) ∨
    (∃ d inside after items, depth = d + 1 ∧ Scan.skipBlank text = Ascii.openBracket :: inside ∧
      json = .array items ∧ elements (value keep d) (inside.length + 1) 0 inside = .ok (items, after) ∧
      endList after = .ok rest) ∨
    (∃ d inside after, depth = d + 1 ∧ Scan.skipBlank text = Ascii.openBrace :: inside ∧
      objectBody keep (value keep d) inside = .ok (json, after) ∧ endObject after = .ok rest) := by
  cases depth with
  | zero =>
    rw [value, valueWith] at h
    split at h
    · cases h
    · split at h
      · cases h
      · split at h
        · cases h
        · exact .inl ⟨_, _, ‹_›, ‹_›, ‹_›, h⟩
  | succ depth =>
    rw [value, valueWith] at h
    split at h
    · cases h
    · rename_i b unread hBlank
      split at h
      · rename_i hBracket
        obtain ⟨after, hInside, hEnd⟩ := closing_eq_ok_iff.mp h
        obtain ⟨⟨items, last⟩, hItems, hSame⟩ := map_eq_ok_iff.mp hInside
        cases hSame
        exact .inr (.inl ⟨depth, unread, after, items, rfl, hBracket ▸ hBlank, rfl, hItems, hEnd⟩)
      · split at h
        · rename_i hBrace
          obtain ⟨after, hInside, hEnd⟩ := closing_eq_ok_iff.mp h
          exact .inr (.inr ⟨depth, unread, after, rfl, hBrace ▸ hBlank, hInside, hEnd⟩)
        · exact .inl ⟨_, _, hBlank, ‹_›, ‹_›, h⟩

theorem depth_of_scalar {text rest : Bytes} {json : Json} (h : scalar text = .ok (json, rest)) :
    json.depth = 0 := by
  cases text with
  | nil => cases h
  | cons b text =>
    obtain ⟨-, rfl, -⟩ | ⟨-, rfl, -⟩ | ⟨-, rfl, -⟩ | ⟨-, -, -, -, n, rfl, -⟩ | ⟨-, s, rfl, -⟩ :=
      scalar_cases h
    all_goals rfl

theorem exists_of_reservedNumber {text rest : Bytes} {json : Json}
    (h : reservedNumber text = .ok (json, rest)) : ∃ n, json = .number n := by
  rw [reservedNumber] at h
  split at h
  · cases h
  · split at h
    · obtain ⟨⟨s, after⟩, -, hNumeral⟩ := bind_eq_ok_iff.mp h
      dsimp only at hNumeral
      split at hNumeral
      · rename_i n hNumber
        cases hNumeral
        exact ⟨n, rfl⟩
      · cases hNumeral
    · cases h

theorem mem_of_mem_add {keep : Keeping} {entries : Entries Json} {name : String} {json : Json}
    {entry : String × Json} (h : entry ∈ keep.add entries name json) :
    entry = (name, json) ∨ entry ∈ entries := by
  cases keep with
  | data => exact Entries.mem_of_mem_insert h
  | verbatim => exact (List.mem_append.mp h).symm.imp_left List.mem_singleton.mp

theorem forall_depth_member {keep : Keeping} {nested : Bytes → Except Fault (Json × Bytes)} {d : Nat}
    (hNested : ∀ text json rest, nested text = .ok (json, rest) → json.depth ≤ d) {entries next : Entries Json}
    {name : String} {text rest : Bytes} (hEntries : ∀ entry ∈ entries, entry.2.depth ≤ d)
    (h : member keep nested entries name text = .ok (next, rest)) : ∀ entry ∈ next, entry.2.depth ≤ d := by
  obtain ⟨behind, -, hBehind⟩ := bind_eq_ok_iff.mp h
  obtain ⟨⟨json, after⟩, hValue, hNext⟩ := bind_eq_ok_iff.mp hBehind
  cases hNext
  intro entry hEntry
  rcases mem_of_mem_add hEntry with rfl | hOld
  · exact hNested _ _ _ (within_eq_ok_iff.mp hValue)
  · exact hEntries entry hOld

theorem depth_le_of_objectBody {keep : Keeping} {nested : Bytes → Except Fault (Json × Bytes)} {d : Nat}
    (hNested : ∀ text json rest, nested text = .ok (json, rest) → json.depth ≤ d) {text rest : Bytes}
    {json : Json} (h : objectBody keep nested text = .ok (json, rest)) : json.depth ≤ d + 1 := by
  obtain ⟨⟨first, behind⟩, -, hFirst⟩ := bind_eq_ok_iff.mp h
  cases first with
  | none =>
    cases hFirst
    exact depth_object_le_iff.mpr nofun
  | some name =>
    dsimp only at hFirst
    split at hFirst
    · obtain ⟨after, -, hNumber⟩ := bind_eq_ok_iff.mp hFirst
      obtain ⟨n, rfl⟩ := exists_of_reservedNumber (within_eq_ok_iff.mp hNumber)
      exact Nat.zero_le _
    · obtain ⟨⟨entries, after⟩, hMember, hRest⟩ := bind_eq_ok_iff.mp hFirst
      obtain ⟨⟨members, last⟩, hMembers, hJson⟩ := bind_eq_ok_iff.mp hRest
      cases hJson
      have hNone : ∀ entry ∈ ([] : Entries Json), entry.2.depth ≤ d := nofun
      have hEntries := forall_depth_member hNested hNone hMember
      exact depth_object_le_iff.mpr
        (members_induction (fun _ _ _ _ _ => forall_depth_member hNested) hEntries hMembers)

theorem depth_le_of_value {keep : Keeping} {depth : Nat} {text rest : Bytes} {json : Json}
    (h : value keep depth text = .ok (json, rest)) : json.depth ≤ depth := by
  induction depth generalizing text json rest with
  | zero =>
    obtain ⟨b, unread, -, -, -, hScalar⟩ | ⟨d, _, _, _, hDepth, -⟩ | ⟨d, _, _, hDepth, -⟩ := value_cases h
    · exact Nat.le_of_eq (depth_of_scalar hScalar)
    · cases hDepth
    · cases hDepth
  | succ depth ih =>
    obtain ⟨b, unread, -, -, -, hScalar⟩ | ⟨d, inside, after, items, ⟨⟩, -, rfl, hItems, -⟩ |
      ⟨d, inside, after, ⟨⟩, -, hBody, -⟩ := value_cases h
    · exact Nat.le_trans (Nat.le_of_eq (depth_of_scalar hScalar)) (Nat.zero_le _)
    · exact depth_array_le_iff.mpr (forall_of_elements (fun _ _ _ => ih) hItems)
    · exact depth_le_of_objectBody (fun _ _ _ => ih) hBody

theorem eq_some_of_getD {slot : Option (Option α)} {value : α} (h : slot.getD none = some value) :
    slot = some (some value) := by
  cases slot with
  | none => cases h
  | some found => exact congrArg some h

theorem decodeDocument_eq_ok_iff {decoder : Decoder α} {document : Bytes} {value : α} :
    decodeDocument decoder document = .ok value ↔ ∃ rest, decoder depthLimit document = .ok (value, rest) := by
  rw [decodeDocument]
  split
  · rename_i found rest hFound
    constructor
    · rintro ⟨⟩
      exact ⟨rest, hFound⟩
    · rintro ⟨behind, hSame⟩
      cases hFound.symm.trans hSame
      rfl
  · rename_i fault hFault
    exact iff_of_false nofun fun ⟨_, hSame⟩ => nomatch hFault.symm.trans hSame

namespace Decoder

theorem brackets_cases {list object : Decoder α} {other : Bytes → Except Fault (α × Bytes)} {depth : Nat}
    {text : Bytes} {result : α × Bytes} (h : brackets list object other depth text = .ok result) :
    (∃ d inner, depth = d + 1 ∧ (list d inner = .ok result ∨ object d inner = .ok result)) ∨
      ∃ inner, other inner = .ok result := by
  rw [brackets] at h
  split at h
  · cases h
  · split at h
    · split at h
      · cases h
      · rename_i d
        split at h
        · exact .inl ⟨d, _, rfl, .inl h⟩
        · exact .inl ⟨d, _, rfl, .inr h⟩
    · exact .inr ⟨_, h⟩

theorem list_ok_iff {item : Decoder α} {depth : Nat} {text rest : Bytes} {values : List α} :
    list item depth text = .ok (values, rest) ↔
      ∃ d inside after, depth = d + 1 ∧ Scan.skipBlank text = Ascii.openBracket :: inside ∧
        elements (item d) (inside.length + 1) 0 inside = .ok (values, after) ∧ endList after = .ok rest := by
  constructor
  · intro h
    rw [list] at h
    split at h
    · cases h
    · rename_i b inside hText
      split at h
      · rename_i hByte
        split at h
        · cases h
        · rename_i d
          obtain ⟨after, hInside, hEnd⟩ := closing_eq_ok_iff.mp h
          exact ⟨d, inside, after, rfl, hByte ▸ hText, hInside, hEnd⟩
      · cases h
  · rintro ⟨d, inside, after, rfl, hText, hInside, hEnd⟩
    rw [list, hText]
    dsimp only
    rw [if_pos rfl]
    exact closing_eq_ok_iff.mpr ⟨after, hInside, hEnd⟩

theorem map_ok_iff {item : Decoder α} {depth : Nat} {text rest : Bytes} {entries : Entries α} :
    map item depth text = .ok (entries, rest) ↔
      ∃ d inside after, depth = d + 1 ∧ Scan.skipBlank text = Ascii.openBrace :: inside ∧
        members (entry (item d)) (inside.length + 1) true [] inside = .ok (entries, after) ∧
        endObject after = .ok rest := by
  constructor
  · intro h
    rw [map] at h
    split at h
    · cases h
    · rename_i b inside hText
      split at h
      · rename_i hByte
        split at h
        · cases h
        · rename_i d
          obtain ⟨after, hInside, hEnd⟩ := closing_eq_ok_iff.mp h
          exact ⟨d, inside, after, rfl, hByte ▸ hText, hInside, hEnd⟩
      · cases h
  · rintro ⟨d, inside, after, rfl, hText, hInside, hEnd⟩
    rw [map, hText]
    dsimp only
    rw [if_pos rfl]
    exact closing_eq_ok_iff.mpr ⟨after, hInside, hEnd⟩

theorem entry_ok_iff {item : Bytes → Except Fault (α × Bytes)} {entries next : Entries α} {name : String}
    {text rest : Bytes} :
    entry item entries name text = .ok (next, rest) ↔
      ∃ inside value, colon text = .ok inside ∧ item inside = .ok (value, rest) ∧
        next = entries.insert name value := by
  constructor
  · intro h
    obtain ⟨inside, hColon, hMore⟩ := bind_eq_ok_iff.mp h
    obtain ⟨⟨value, after⟩, hValue, hSame⟩ := bind_eq_ok_iff.mp hMore
    cases hSame
    exact ⟨inside, value, hColon, within_eq_ok_iff.mp hValue, rfl⟩
  · rintro ⟨inside, value, hColon, hValue, rfl⟩
    refine bind_eq_ok_iff.mpr ⟨_, hColon, ?_⟩
    exact bind_eq_ok_iff.mpr ⟨_, within_eq_ok_iff.mpr hValue, rfl⟩

/-- A list is read inside one bracket more than its items. -/
theorem forall_of_list {item : Decoder α} {P : Nat → α → Prop} {depth : Nat} {text rest : Bytes}
    {values : List α} (hItem : ∀ d text value rest, item d text = .ok (value, rest) → P d value)
    (h : list item depth text = .ok (values, rest)) : ∃ d, depth = d + 1 ∧ ∀ value ∈ values, P d value := by
  obtain ⟨d, inside, after, rfl, -, hInside, -⟩ := list_ok_iff.mp h
  exact ⟨d, rfl, forall_of_elements (hItem d) hInside⟩

theorem forall_of_map {item : Decoder α} {P : Nat → α → Prop} {depth : Nat} {text rest : Bytes}
    {entries : Entries α} (hItem : ∀ d text value rest, item d text = .ok (value, rest) → P d value)
    (h : map item depth text = .ok (entries, rest)) : ∃ d, depth = d + 1 ∧ ∀ entry ∈ entries, P d entry.2 := by
  obtain ⟨d, inside, after, rfl, -, hInside, -⟩ := map_ok_iff.mp h
  have hNone : ∀ entry ∈ ([] : Entries α), P d entry.2 := nofun
  refine ⟨d, rfl, members_induction (motive := fun entries : Entries α => ∀ entry ∈ entries, P d entry.2)
    ?_ hNone hInside⟩
  intro state name text next rest hState hNext
  obtain ⟨inside, value, -, hRead, rfl⟩ := entry_ok_iff.mp hNext
  intro entry hEntry
  rcases Entries.mem_of_mem_insert hEntry with rfl | hOld
  · exact hItem d _ value _ hRead
  · exact hState entry hOld

/-- A record is read inside one bracket more than its fields, as a row or member by member. -/
theorem record_cases {expected : String} {start : σ} {field : Nat → σ → String → Member σ}
    {finish : σ → Except Reason α} {row : Decoder α} {depth : Nat} {text rest : Bytes} {value : α}
    {motive : Nat → σ → Prop} (h : record expected start field finish row depth text = .ok (value, rest))
    (hStart : ∀ d, motive d start)
    (hField : ∀ d state name read text next rest, motive d state → field d state name = .reads read →
      read text = .ok (next, rest) → motive d next) :
    ∃ d, depth = d + 1 ∧ ((∃ inner after, row d inner = .ok (value, after)) ∨
      ∃ state, motive d state ∧ finish state = .ok value) := by
  obtain ⟨d, inner, hDepth, hRow | hObject⟩ | ⟨inner, hOther⟩ := brackets_cases h
  · obtain ⟨after, hInside, -⟩ := closing_eq_ok_iff.mp hRow
    exact ⟨d, hDepth, .inl ⟨inner, after, hInside⟩⟩
  · obtain ⟨after, hInside, -⟩ := closing_eq_ok_iff.mp hObject
    obtain ⟨⟨state, behind⟩, hMembers, hFinish⟩ := bind_eq_ok_iff.mp hInside
    have hState : motive d state := by
      refine members_induction (motive := motive d) ?_ (hStart d) hMembers
      intro state name text next rest hState hNext
      rw [recordMember] at hNext
      split at hNext
      · cases hNext
      · obtain ⟨behind, -, hSkip⟩ := bind_eq_ok_iff.mp hNext
        obtain ⟨after, -, hSame⟩ := bind_eq_ok_iff.mp hSkip
        cases hSame
        exact hState
      · rename_i read hReads
        obtain ⟨behind, -, hRead⟩ := bind_eq_ok_iff.mp hNext
        exact hField d state name read _ next _ hState hReads (within_eq_ok_iff.mp hRead)
    dsimp only at hFinish
    split at hFinish
    · rename_i found hFound
      cases hFinish
      exact ⟨d, hDepth, .inr ⟨state, hState, hFound⟩⟩
    · cases hFinish
  · cases hOther

theorem exists_of_field {β : Type} {old : Option β} {decoder : Decoder β} {depth : Nat} {store : β → σ}
    {read : Bytes → Except Fault (σ × Bytes)} {text rest : Bytes} {next : σ}
    (hReads : field old decoder depth store = .reads read) (h : read text = .ok (next, rest)) :
    ∃ value, decoder depth text = .ok (value, rest) ∧ next = store value := by
  cases old with
  | some _ => cases hReads
  | none =>
    cases hReads
    obtain ⟨⟨value, after⟩, hValue, hSame⟩ := map_eq_ok_iff.mp h
    cases hSame
    exact ⟨value, hValue, rfl⟩

theorem exists_of_rowElement {index : Nat} {item : Bytes → Except Fault (α × Bytes)} {text rest : Bytes}
    {value : α} (h : rowElement index item text = .ok (some value, rest)) :
    ∃ inner, item inner = .ok (value, rest) := by
  obtain ⟨⟨more, inner⟩, -, hMore⟩ := bind_eq_ok_iff.mp h
  cases more with
  | false => cases hMore
  | true =>
    obtain ⟨⟨found, after⟩, hFound, hSame⟩ := map_eq_ok_iff.mp hMore
    cases hSame
    exact ⟨inner, within_eq_ok_iff.mp hFound⟩

theorem exists_of_rowField {expected : String} {index : Nat} {item : Bytes → Except Fault (α × Bytes)}
    {text rest : Bytes} {value : α} (h : rowField expected index item text = .ok (value, rest)) :
    ∃ inner, item inner = .ok (value, rest) := by
  obtain ⟨⟨element, behind⟩, hElement, hValue⟩ := bind_eq_ok_iff.mp h
  cases element with
  | none => cases hValue
  | some found =>
    cases hValue
    exact exists_of_rowElement hElement

theorem exists_of_rowFieldD {default : α} {index : Nat} {item : Bytes → Except Fault (α × Bytes)}
    {text rest : Bytes} {value : α} (h : rowFieldD default index item text = .ok (value, rest)) :
    value = default ∨ ∃ inner, item inner = .ok (value, rest) := by
  obtain ⟨⟨element, behind⟩, hElement, hSame⟩ := map_eq_ok_iff.mp h
  cases hSame
  cases element with
  | none => exact .inl rfl
  | some found => exact .inr (exists_of_rowElement hElement)

end Decoder

end CircuitForm.Json
