import CircuitForm.Proofs.Descriptor.Decoding
import CircuitForm.Proofs.Json.Arrangement

/-!
# Spellings of a descriptor

A descriptor is written with the members of its own in one order, but it is read from them in any
order and among members of other names, at every level. What is read verbatim and looked at later
comes to the same as what is read from the document.
-/

namespace CircuitForm.Descriptor

open Json (Arranged Rearranged Reason Fault Decoder within seen)

mutual

/-- The descriptor as JSON, but at every level with the members in any order and others in between.
Lists are as they are. -/
def Spells : Descriptor → Json → Prop
  | .field, json => Arranged [("kind", .string "field")] json
  | .boolean, json => Arranged [("kind", .string "boolean")] json
  | .string length, json =>
    Arranged [("kind", .string "string"), ("length", .number (.ofNat length))] json
  | .integer sign width, json =>
    Arranged [("kind", .string "integer"), ("sign", .string sign.name), ("width", .number (.ofNat width))] json
  | .array length element, json =>
    ∃ inner, Spells element inner ∧
      Arranged [("kind", .string "array"), ("length", .number (.ofNat length)), ("type", inner)] json
  | .tuple elements, json =>
    ∃ items, SpellsEach elements items ∧ Arranged [("kind", .string "tuple"), ("fields", .array items)] json
  | .struct path fields, json =>
    ∃ items, SpellsFields fields items ∧
      Arranged [("kind", .string "struct"), ("path", .string path), ("fields", .array items)] json

def SpellsEach : List Descriptor → List Json → Prop
  | [], items => items = []
  | element :: rest, items => ∃ item others, items = item :: others ∧ Spells element item ∧ SpellsEach rest others

def SpellsFields : List (String × Descriptor) → List Json → Prop
  | [], items => items = []
  | (name, type) :: rest, items =>
    ∃ item others, items = item :: others ∧
      (∃ inner, Spells type inner ∧ Arranged [("name", .string name), ("type", inner)] item) ∧
      SpellsFields rest others

end

def SpellsField (field : String × Descriptor) (json : Json) : Prop :=
  ∃ inner, field.2.Spells inner ∧ Arranged [("name", .string field.1), ("type", inner)] json

theorem spellsEach_iff {elements : List Descriptor} {items : List Json} :
    SpellsEach elements items ↔ List.Forall₂ Spells elements items := by
  induction elements generalizing items with
  | nil => rw [SpellsEach, List.forall₂_nil_left_iff]
  | cons element rest ih =>
    rw [SpellsEach, List.forall₂_cons_left_iff]
    simp only [ih]
    constructor
    · rintro ⟨item, others, rfl, hItem, hOthers⟩
      exact ⟨item, others, hItem, hOthers, rfl⟩
    · rintro ⟨item, others, hItem, hOthers, rfl⟩
      exact ⟨item, others, rfl, hItem, hOthers⟩

theorem spellsFields_iff {fields : Entries Descriptor} {items : List Json} :
    SpellsFields fields items ↔ List.Forall₂ SpellsField fields items := by
  induction fields generalizing items with
  | nil => rw [SpellsFields, List.forall₂_nil_left_iff]
  | cons field rest ih =>
    obtain ⟨name, type⟩ := field
    rw [SpellsFields, List.forall₂_cons_left_iff]
    simp only [ih]
    constructor
    · rintro ⟨item, others, rfl, hItem, hOthers⟩
      exact ⟨item, others, hItem, hOthers, rfl⟩
    · rintro ⟨item, others, hItem, hOthers, rfl⟩
      exact ⟨item, others, rfl, hItem, hOthers⟩

theorem spells_toJson (type : Descriptor) : type.Spells type.toJson := by
  induction type with
  | field | boolean | string _ | integer _ _ => exact .refl _
  | array length element ih => exact ⟨_, ih, .refl _⟩
  | tuple elements ih =>
    refine ⟨_, spellsEach_iff.mpr ?_, .refl _⟩
    rw [elementsToJson_eq_map, List.forall₂_map_right_iff]
    exact List.forall₂_same.mpr ih
  | struct path fields ih =>
    refine ⟨_, spellsFields_iff.mpr ?_, .refl _⟩
    rw [fieldsToJson_eq_map, List.forall₂_map_right_iff]
    exact List.forall₂_same.mpr fun field hField => ⟨_, ih field hField, .refl _⟩

theorem slotsOf_cons (kind : Kind) (slots : Slots) (member : String × Json) (rest : Entries Json) :
    slotsOf kind slots (member :: rest) = slotsOf kind slots [member] >>= fun slots => slotsOf kind slots rest := by
  obtain ⟨name, json⟩ := member
  rw [slotsOf.eq_def, slotsOf.eq_def kind slots [(name, json)]]
  dsimp only
  split
  case h_9 => rfl
  all_goals
    rw [bind_assoc]
    exact bind_congr fun _ => rfl

theorem slotsOf_eq_foldlM (kind : Kind) (slots : Slots) (members : Entries Json) :
    slotsOf kind slots members = members.foldlM (fun slots member => slotsOf kind slots [member]) slots := by
  induction members generalizing slots with
  | nil => rfl
  | cons member rest ih =>
    rw [slotsOf_cons, List.foldlM_cons]
    exact bind_congr ih

/-- The members that a kind has a slot for; its own name is no slot. -/
def slotNames : Kind → List String
  | .field | .boolean => []
  | .string => ["length"]
  | .integer => ["sign", "width"]
  | .array => ["length", "type"]
  | .tuple => ["fields"]
  | .struct => ["path", "fields"]

theorem nodup_slotNames (kind : Kind) : ("kind" :: slotNames kind).Nodup := by
  cases kind <;> decide

theorem slotsOf_other {kind : Kind} {member : String × Json} (h : member.1 ∉ slotNames kind) (slots : Slots) :
    slotsOf kind slots [member] = .ok slots := by
  obtain ⟨name, json⟩ := member
  rw [slotsOf.eq_def]
  dsimp only
  split
  case h_9 => rfl
  all_goals exact absurd (by simp [slotNames]) h

theorem kindIn_of_rearranged {name : String} {kind : Kind} {known members : Entries Json}
    (hKind : kinds.lookup name = some kind) (hDistinct : Entries.Distinct (("kind", .string name) :: known))
    (h : Rearranged (("kind", .string name) :: known) members) : kindIn members = .ok kind := by
  refine bind_eq_ok_iff.mpr ⟨seen "kind" kind members, ?_, ?_⟩
  · refine Json.foldlM_of_prefixes (seen "kind" kind) fun before entry hPrefix => ?_
    obtain ⟨other, json⟩ := entry
    by_cases hName : other = "kind"
    · subst hName
      obtain ⟨rfl, hFresh⟩ := h.value_of_prefix hDistinct hPrefix List.mem_cons_self
      simp [Json.seen_of_not_mem kind hFresh, kindOf, namedOf, hKind, Except.map]
    · simp [hName]
  · rw [Json.seen_of_mem kind (h.mem_names List.mem_cons_self)]
    rfl

/-- A descriptor is found again in its members if each has its place among the slots of its kind. -/
theorem ofVerbatim_of_arranged {name : String} (kind : Kind) {known : Entries Json} {json : Json}
    {type : Descriptor} (state : Entries Json → Slots) (h : Arranged (("kind", .string name) :: known) json)
    (hKind : kinds.lookup name = some kind) (hNames : known.names = slotNames kind) (hStart : state [] = {})
    (hKnown : ∀ before entry, entry ∈ known → entry.1 ∉ before.names →
      slotsOf kind (state before) [entry] = .ok (state (before ++ [entry])))
    (hOther : ∀ before entry, entry.1 ∉ known.names → state (before ++ [entry]) = state before)
    (hFinish : ∀ members, (∀ name ∈ known.names, name ∈ members.names) → finish kind (state members) = .ok type) :
    ofVerbatim json = .ok type := by
  obtain ⟨members, rfl, hMembers⟩ := h
  have hDistinct : Entries.Distinct (("kind", .string name) :: known) := by
    rw [Entries.Distinct, Entries.names_cons, hNames]
    exact nodup_slotNames kind
  rw [ofVerbatim]
  refine bind_eq_ok_iff.mpr ⟨kind, kindIn_of_rearranged hKind hDistinct hMembers, ?_⟩
  refine bind_eq_ok_iff.mpr ⟨state members, ?_, hFinish members fun name hName => ?_⟩
  · rw [slotsOf_eq_foldlM, ← hStart]
    refine Json.foldlM_of_prefixes state fun before entry hPrefix => ?_
    rcases hMembers.cases_of_prefix hDistinct hPrefix with ⟨hEntry, hFresh⟩ | hName
    · rcases List.mem_cons.mp hEntry with rfl | hSlot
      · have hNoSlot : "kind" ∉ known.names := (List.nodup_cons.mp hDistinct).1
        rw [hOther before _ hNoSlot]
        exact slotsOf_other (hNames ▸ hNoSlot) _
      · exact hKnown before entry hSlot hFresh
    · have hNoSlot : entry.1 ∉ known.names := fun hSlot => hName (List.mem_cons_of_mem _ hSlot)
      rw [hOther before entry hNoSlot]
      exact slotsOf_other (hNames ▸ hNoSlot) _
  · exact hMembers.mem_names (List.mem_cons_of_mem _ hName)

theorem fresh_seen {α : Type} {name : String} {value : α} {read : Except Reason α} {before : Entries Json}
    (hRead : read = .ok value) (hFresh : name ∉ before.names) :
    fresh name (seen name value before) read = .ok (some value) := by
  rw [Json.seen_of_not_mem value hFresh, hRead]
  rfl

theorem naturalOf_ofNat (typeName : String) {bound n : Nat} (hBound : bound ≤ Word.bound64) (h : n < bound) :
    naturalOf typeName bound (.number (.ofNat n)) = .ok n := by
  rw [naturalOf, found, Numeral.integer?_ofNat n (Nat.lt_of_lt_of_le h hBound)]
  exact if_pos ⟨Int.natCast_nonneg n, Int.ofNat_lt.mpr h⟩

theorem lengthOf_ofNat {length : Nat} (h : length < Word.bound64) :
    lengthOf (.number (.ofNat length)) = .ok length :=
  naturalOf_ofNat "usize" (Nat.le_refl _) h

theorem widthOf_ofNat {width : Nat} (h : width < Word.bound32) :
    widthOf (.number (.ofNat width)) = .ok width :=
  naturalOf_ofNat "u32" (by decide) h

theorem signOf_name (sign : Sign) : signOf (.string sign.name) = .ok sign := by
  cases sign <;> rfl

theorem listOf_of_forall₂ {items : List Json} {types : List Descriptor}
    (h : List.Forall₂ (fun type json => ofVerbatim json = .ok type) types items) :
    listOf items = .ok types := by
  induction h with
  | nil => rfl
  | cons hItem _ ih =>
    rw [listOf, hItem, ih]
    rfl

theorem fieldListOf_of_forall₂ {items : List Json} {fields : Entries Descriptor}
    (h : List.Forall₂ (fun field json => fieldOf json = .ok field) fields items) :
    fieldListOf items = .ok fields := by
  induction h with
  | nil => rfl
  | cons hItem _ ih =>
    rw [fieldListOf, hItem, ih]
    rfl

theorem nodup_fieldNames : ["name", "type"].Nodup := by decide

theorem fieldSlots_of_prefixes {name : String} {type : Descriptor} {inner : Json} {members : Entries Json}
    (hInner : ofVerbatim inner = .ok type)
    (h : Rearranged [("name", .string name), ("type", inner)] members) (before : Entries Json)
    {rest : Entries Json} (hSplit : before ++ rest = members) :
    fieldSlots (seen "name" name before) (seen "type" type before) rest = .ok (name, type) := by
  have hDistinct : Entries.Distinct [("name", .string name), ("type", inner)] := nodup_fieldNames
  induction rest generalizing before with
  | nil =>
    rw [List.append_nil] at hSplit
    rw [hSplit, Json.seen_of_mem name (h.mem_names List.mem_cons_self),
      Json.seen_of_mem type (h.mem_names (List.mem_cons_of_mem _ List.mem_cons_self))]
    rfl
  | cons entry rest ih =>
    obtain ⟨key, json⟩ := entry
    have hNext := ih (before ++ [(key, json)]) (by rw [← hSplit, List.append_assoc]; rfl)
    have hPrefix : before ++ [(key, json)] <+: members := ⟨rest, by rw [← hSplit, List.append_assoc]; rfl⟩
    rw [Json.seen_append_singleton, Json.seen_append_singleton] at hNext
    rw [fieldSlots]
    split
    · rename_i hName
      subst hName
      obtain ⟨rfl, hFresh⟩ := h.value_of_prefix hDistinct hPrefix List.mem_cons_self
      rw [Json.seen_of_not_mem name hFresh]
      exact hNext
    · rename_i hName
      rw [if_neg hName] at hNext
      split
      · rename_i hType
        subst hType
        obtain ⟨rfl, hFresh⟩ := h.value_of_prefix hDistinct hPrefix (List.mem_cons_of_mem _ List.mem_cons_self)
        rw [Json.seen_of_not_mem type hFresh, fresh, hInner]
        exact hNext
      · rename_i hType
        rw [if_neg hType] at hNext
        exact hNext

section Kinds

variable {json : Json}

theorem ofVerbatim_string {length : Nat} (hLength : length < Word.bound64)
    (h : Arranged [("kind", .string "string"), ("length", .number (.ofNat length))] json) :
    ofVerbatim json = .ok (.string length) := by
  refine ofVerbatim_of_arranged .string (fun before => { length := seen "length" length before })
    h rfl rfl rfl ?_ ?_ ?_
  · intro before entry hEntry hFresh
    cases List.mem_singleton.mp hEntry
    simp [slotsOf, fresh_seen (lengthOf_ofNat hLength) hFresh]
  · intro before entry hOther
    simp_all
  · intro members hAll
    simp [finish, Json.required_seen length (hAll "length" (by simp)), Except.map]

theorem ofVerbatim_integer {sign : Sign} {width : Nat} (hWidth : width < Word.bound32)
    (h : Arranged [("kind", .string "integer"), ("sign", .string sign.name),
      ("width", .number (.ofNat width))] json) :
    ofVerbatim json = .ok (.integer sign width) := by
  refine ofVerbatim_of_arranged .integer
    (fun before => { sign := seen "sign" sign before, width := seen "width" width before })
    h rfl rfl rfl ?_ ?_ ?_
  · intro before entry hEntry hFresh
    rcases List.mem_pair.mp hEntry with rfl | rfl
    · simp [slotsOf, fresh_seen (signOf_name sign) hFresh]
    · simp [slotsOf, fresh_seen (widthOf_ofNat hWidth) hFresh]
  · intro before entry hOther
    simp_all
  · intro members hAll
    have hSign := Json.required_seen sign (hAll "sign" (by simp))
    have hWidth := Json.required_seen width (hAll "width" (by simp))
    simp [finish, hSign, hWidth]

theorem ofVerbatim_array {length : Nat} {element : Descriptor} {inner : Json} (hLength : length < Word.bound64)
    (hInner : ofVerbatim inner = .ok element)
    (h : Arranged [("kind", .string "array"), ("length", .number (.ofNat length)), ("type", inner)] json) :
    ofVerbatim json = .ok (.array length element) := by
  refine ofVerbatim_of_arranged .array
    (fun before => { length := seen "length" length before, element := seen "type" element before })
    h rfl rfl rfl ?_ ?_ ?_
  · intro before entry hEntry hFresh
    rcases List.mem_pair.mp hEntry with rfl | rfl
    · rw [slotsOf.eq_def]
      simp [slotsOf, fresh_seen (lengthOf_ofNat hLength) hFresh]
    · simp [slotsOf, fresh_seen hInner hFresh]
  · intro before entry hOther
    simp_all
  · intro members hAll
    have hLength := Json.required_seen length (hAll "length" (by simp))
    have hElement := Json.required_seen element (hAll "type" (by simp))
    simp [finish, hLength, hElement]

theorem ofVerbatim_tuple {elements : List Descriptor} {items : List Json} (hItems : listOf items = .ok elements)
    (h : Arranged [("kind", .string "tuple"), ("fields", .array items)] json) :
    ofVerbatim json = .ok (.tuple elements) := by
  refine ofVerbatim_of_arranged .tuple (fun before => { elements := seen "fields" elements before })
    h rfl rfl rfl ?_ ?_ ?_
  · intro before entry hEntry hFresh
    cases List.mem_singleton.mp hEntry
    simp [slotsOf, fresh_seen hItems hFresh, elementsOf]
  · intro before entry hOther
    simp_all
  · intro members hAll
    simp [finish, Json.required_seen elements (hAll "fields" (by simp)), Except.map]

theorem ofVerbatim_struct {path : String} {fields : Entries Descriptor} {items : List Json}
    (hItems : fieldListOf items = .ok fields)
    (h : Arranged [("kind", .string "struct"), ("path", .string path), ("fields", .array items)] json) :
    ofVerbatim json = .ok (.struct path fields) := by
  refine ofVerbatim_of_arranged .struct
    (fun before => { path := seen "path" path before, fields := seen "fields" fields before })
    h rfl rfl rfl ?_ ?_ ?_
  · intro before entry hEntry hFresh
    have hPath : stringOf (.string path) = .ok path := rfl
    rcases List.mem_pair.mp hEntry with rfl | rfl
    · simp [slotsOf, fresh_seen hPath hFresh]
    · simp [slotsOf, fresh_seen hItems hFresh, fieldsOf]
  · intro before entry hOther
    simp_all
  · intro members hAll
    have hFields := Json.required_seen fields (hAll "fields" (by simp))
    have hPath := Json.seen_of_mem path (hAll "path" (by simp))
    simp [finish, hFields, hPath, Except.map]

theorem fieldOf_of_arranged {field : String × Descriptor} {inner : Json} (hInner : ofVerbatim inner = .ok field.2)
    (h : Arranged [("name", .string field.1), ("type", inner)] json) : fieldOf json = .ok field := by
  obtain ⟨members, rfl, hMembers⟩ := h
  exact fieldSlots_of_prefixes hInner hMembers [] rfl

end Kinds

/-- What spells a descriptor is found to be that descriptor. -/
theorem ofVerbatim_of_spells {type : Descriptor} (hWords : type.FitsWords) {json : Json} (h : type.Spells json) :
    ofVerbatim json = .ok type := by
  induction type generalizing json with
  | field =>
    exact ofVerbatim_of_arranged .field (fun _ => {}) h rfl rfl rfl
      (fun _ _ hEntry => nomatch hEntry) (fun _ _ _ => rfl) (fun _ _ => rfl)
  | boolean =>
    exact ofVerbatim_of_arranged .boolean (fun _ => {}) h rfl rfl rfl
      (fun _ _ hEntry => nomatch hEntry) (fun _ _ _ => rfl) (fun _ _ => rfl)
  | string length => exact ofVerbatim_string hWords h
  | integer sign width => exact ofVerbatim_integer hWords h
  | array length element ih =>
    obtain ⟨inner, hInner, hArranged⟩ := h
    exact ofVerbatim_array hWords.1 (ih hWords.2 hInner) hArranged
  | tuple elements ih =>
    obtain ⟨items, hItems, hArranged⟩ := h
    refine ofVerbatim_tuple (listOf_of_forall₂ ?_) hArranged
    exact Entries.forall₂_imp_of_mem (spellsEach_iff.mp hItems) fun element hElement item _ hItem =>
      ih element hElement (fitsWords_tuple_iff.mp hWords element hElement) hItem
  | struct path fields ih =>
    obtain ⟨items, hItems, hArranged⟩ := h
    refine ofVerbatim_struct (fieldListOf_of_forall₂ ?_) hArranged
    refine Entries.forall₂_imp_of_mem (spellsFields_iff.mp hItems) fun field hField item _ hItem => ?_
    obtain ⟨inner, hInner, hPair⟩ := hItem
    exact fieldOf_of_arranged (ih field hField (fitsWords_struct_iff.mp hWords field hField) hInner) hPair

theorem exists_kind_of_spells {type : Descriptor} {json : Json} (h : type.Spells json) :
    ∃ name kind known, kinds.lookup name = some kind ∧ Entries.names known = slotNames kind ∧
      Arranged (("kind", .string name) :: known) json := by
  cases type with
  | field => exact ⟨_, .field, _, rfl, rfl, h⟩
  | boolean => exact ⟨_, .boolean, _, rfl, rfl, h⟩
  | string length => exact ⟨_, .string, _, rfl, rfl, h⟩
  | integer sign width => exact ⟨_, .integer, _, rfl, rfl, h⟩
  | array length element =>
    obtain ⟨inner, -, hArranged⟩ := h
    exact ⟨_, .array, _, rfl, rfl, hArranged⟩
  | tuple elements =>
    obtain ⟨items, -, hArranged⟩ := h
    exact ⟨_, .tuple, _, rfl, rfl, hArranged⟩
  | struct path fields =>
    obtain ⟨items, -, hArranged⟩ := h
    exact ⟨_, .struct, _, rfl, rfl, hArranged⟩

theorem slotsOf_filter (kind : Kind) (slots : Slots) (members : Entries Json) :
    slotsOf kind slots (members.filter (·.1 ≠ "kind")) = slotsOf kind slots members := by
  induction members generalizing slots with
  | nil => rfl
  | cons member rest ih =>
    rw [slotsOf_cons]
    by_cases hName : member.1 = "kind"
    · have hOther : slotsOf kind slots [member] = .ok slots :=
        slotsOf_other (hName ▸ (List.nodup_cons.mp (nodup_slotNames kind)).1) slots
      rw [List.filter_cons_of_neg (by simp [hName]), hOther]
      exact ih slots
    · rw [List.filter_cons_of_pos (by simp [hName]), slotsOf_cons]
      exact bind_congr ih

/-- The kind is taken from wherever it stands, and the other members are kept in their order. -/
theorem taggedMember_of_written {name : String} {kind : Kind} {known members : Entries Json}
    (hKind : kinds.lookup name = some kind) (hDistinct : Entries.Distinct (("kind", .string name) :: known))
    (hMembers : Rearranged (("kind", .string name) :: known) members) {before : Entries Json}
    {entry : String × Json} (hPrefix : before ++ [entry] <+: members) {depth : Nat} {text inside rest : Bytes}
    (hColon : Json.colon text = .ok inside) (hValue : Json.value .verbatim depth inside = .ok (entry.2, rest)) :
    taggedMember depth (seen "kind" kind before, before.filter (·.1 ≠ "kind")) entry.1 text =
      .ok ((seen "kind" kind (before ++ [entry]), (before ++ [entry]).filter (·.1 ≠ "kind")), rest) := by
  obtain ⟨other, json⟩ := entry
  rw [taggedMember, Json.seen_append_singleton, List.filter_append]
  split
  · rename_i hName
    subst hName
    obtain ⟨rfl, hFresh⟩ := hMembers.value_of_prefix hDistinct hPrefix List.mem_cons_self
    rw [Json.seen_of_not_mem kind hFresh]
    refine bind_eq_ok_iff.mpr ⟨_, hColon, ?_⟩
    refine bind_eq_ok_iff.mpr ⟨_, Json.within_eq_ok_iff.mpr (Decoder.named_of_value hKind hValue), ?_⟩
    simp
  · rename_i hName
    refine bind_eq_ok_iff.mpr ⟨_, hColon, ?_⟩
    refine bind_eq_ok_iff.mpr ⟨_, Json.within_eq_ok_iff.mpr hValue, ?_⟩
    simp [hName]

theorem reads_of_spells {type : Descriptor} (hWords : type.FitsWords) {json : Json} (h : type.Spells json) :
    decoder.Reads json type := by
  have hType := ofVerbatim_of_spells hWords h
  obtain ⟨name, kind, known, hKind, hNames, members, rfl, hMembers⟩ := exists_kind_of_spells h
  have hDistinct : Entries.Distinct (("kind", .string name) :: known) := by
    rw [Entries.Distinct, Entries.names_cons, hNames]
    exact nodup_slotNames kind
  intro depth text rest hValue
  obtain ⟨d, inside, after, rfl, hText, hRead, -, hEnd⟩ := Json.value_eq_object_iff.mp hValue
  refine bind_eq_ok_iff.mpr ⟨(.ok type, rest), ?_, rfl⟩
  rw [Decoder.brackets, hText]
  dsimp only
  rw [if_pos (.inr rfl), if_neg (by decide)]
  refine Json.closing_eq_ok_iff.mpr ⟨after, ?_, hEnd⟩
  have hTaken : Json.members (taggedMember d) (inside.length + 1) true (none, []) inside =
      .ok ((seen "kind" kind members, members.filter (·.1 ≠ "kind")), after) :=
    Json.members_of_written (fun before => (seen "kind" kind before, before.filter (·.1 ≠ "kind")))
      (fun _ _ hPrefix _ _ _ => taggedMember_of_written hKind hDistinct hMembers hPrefix) hRead
  refine bind_eq_ok_iff.mpr ⟨_, hTaken, ?_⟩
  rw [ofVerbatim, kindIn_of_rearranged hKind hDistinct hMembers] at hType
  rw [Json.seen_of_mem kind (hMembers.mem_names List.mem_cons_self)]
  dsimp only
  rw [slotsOf_filter]
  exact congrArg (fun result => Except.ok (result, after)) hType

end CircuitForm.Descriptor
