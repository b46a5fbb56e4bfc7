import CircuitForm.Descriptor.Decoder
import CircuitForm.Proofs.Descriptor.Encoding
import CircuitForm.Proofs.Json.Depth

/-!
# Decoded descriptors

Every composite is written inside brackets of its own, in each form in which it can be read. So
the JSON of a descriptor nests no deeper than what the descriptor is read from, and no deeper than
its reader was allowed to go; its numbers are words, since they were read as such.
-/

namespace CircuitForm

theorem Json.required_eq_ok_iff {α : Type} {name : String} {slot : Option α} {value : α} :
    required name slot = .ok value ↔ slot = some value := by
  cases slot <;> simp [required]

namespace Descriptor

/-- What a verbatim value is read as, a descriptor or a list of them, can be written within the
brackets of that value. -/
structure Bounded (json : Json) : Prop where
  type : ∀ type, ofVerbatim json = .ok type → type.Encodable json.depth
  elements : ∀ types, elementsOf json = .ok types → ∃ d, json.depth = d + 1 ∧ ∀ type ∈ types, type.Encodable d
  fields : ∀ fields, fieldsOf json = .ok fields →
    ∃ d, json.depth = d + 1 ∧ ∀ field ∈ fields, EncodableField field d
  field : ∀ field, fieldOf json = .ok field → EncodableField field json.depth

structure Slots.Within (slots : Slots) (d : Nat) : Prop where
  length : ∀ length, slots.length = some length → length < Word.bound64
  width : ∀ width, slots.width = some width → width < Word.bound32
  element : ∀ type, slots.element = some type → type.Encodable d
  elements : ∀ types, slots.elements = some types → (tuple types).Encodable (d + 1)
  fields : ∀ fields, slots.fields = some fields → ∀ path, (struct path fields).Encodable (d + 1)

theorem Slots.within_empty (d : Nat) : Slots.Within {} d :=
  ⟨nofun, nofun, nofun, nofun, nofun⟩

theorem lt_of_naturalOf {typeName : String} {bound n : Nat} {json : Json}
    (h : naturalOf typeName bound json = .ok n) : n < bound := by
  rw [naturalOf] at h
  split at h
  · split at h
    · rename_i hBounds
      cases h
      omega
    · cases h
  · cases h

section

variable {kind : Kind} {d : Nat}

theorem tuple_of_elementsOf {json : Json} (hBounded : Bounded json) (hDepth : json.depth ≤ d)
    {types : List Descriptor} (h : elementsOf json = .ok types) : (tuple types).Encodable (d + 1) := by
  obtain ⟨c, hLevel, hTypes⟩ := hBounded.elements types h
  exact (encodable_tuple_iff.mpr hTypes).mono (by omega)

theorem struct_of_fieldsOf {json : Json} (hBounded : Bounded json) (hDepth : json.depth ≤ d)
    {fields : Entries Descriptor} (h : fieldsOf json = .ok fields) (path : String) :
    (struct path fields).Encodable (d + 1) := by
  obtain ⟨c, hLevel, hFields⟩ := hBounded.fields fields h
  exact (encodable_struct_iff.mpr hFields).mono (by omega)

theorem encodable_of_finish {slots : Slots} (hSlots : slots.Within d) {type : Descriptor}
    (h : finish kind slots = .ok type) : type.Encodable (d + 1) := by
  cases kind with
  | field | boolean =>
    cases h
    exact ⟨trivial, Nat.le_add_left 1 d⟩
  | string =>
    obtain ⟨length, hFound, rfl⟩ := map_eq_ok_iff.mp h
    exact ⟨hSlots.length length (Json.required_eq_ok_iff.mp hFound), Nat.le_add_left 1 d⟩
  | integer =>
    obtain ⟨sign, -, hWidth⟩ := bind_eq_ok_iff.mp h
    obtain ⟨width, hFound, hType⟩ := bind_eq_ok_iff.mp hWidth
    cases hType
    exact ⟨hSlots.width width (Json.required_eq_ok_iff.mp hFound), Nat.le_add_left 1 d⟩
  | array =>
    obtain ⟨length, hLength, hElement⟩ := bind_eq_ok_iff.mp h
    obtain ⟨element, hFound, hType⟩ := bind_eq_ok_iff.mp hElement
    cases hType
    exact encodable_array_iff.mpr ⟨hSlots.length length (Json.required_eq_ok_iff.mp hLength),
      hSlots.element element (Json.required_eq_ok_iff.mp hFound)⟩
  | tuple =>
    obtain ⟨elements, hFound, rfl⟩ := map_eq_ok_iff.mp h
    exact hSlots.elements elements (Json.required_eq_ok_iff.mp hFound)
  | struct =>
    obtain ⟨fields, hFound, rfl⟩ := map_eq_ok_iff.mp h
    exact hSlots.fields fields (Json.required_eq_ok_iff.mp hFound) _

theorem exists_of_fresh {α : Type} {name : String} {old value : Option α} {read : Except Json.Reason α}
    (h : fresh name old read = .ok value) : ∃ new, read = .ok new ∧ value = some new := by
  cases old with
  | some _ => cases h
  | none =>
    obtain ⟨new, hNew, rfl⟩ := map_eq_ok_iff.mp h
    exact ⟨new, hNew, rfl⟩

theorem within_of_slotsOf {members : Entries Json}
    (hMembers : ∀ member ∈ members, Bounded member.2 ∧ member.2.depth ≤ d) {slots last : Slots}
    (hSlots : slots.Within d) (h : slotsOf kind slots members = .ok last) : last.Within d := by
  induction members generalizing slots with
  | nil =>
    cases h
    exact hSlots
  | cons member rest ih =>
    obtain ⟨name, json⟩ := member
    rw [List.forall_mem_cons] at hMembers
    obtain ⟨⟨hBounded, hDepth⟩, hRest⟩ := hMembers
    rw [slotsOf.eq_def] at h
    dsimp only at h
    split at h
    case h_9 => exact ih hRest hSlots h
    all_goals
      obtain ⟨value, hValue, hNext⟩ := bind_eq_ok_iff.mp h
      obtain ⟨new, hNew, rfl⟩ := exists_of_fresh hValue
      refine ih hRest ?_ hNext
    -- Signs and paths are of no size; of the other slots each is replaced in its turn.
    case h_1 | h_2 => exact { hSlots with length := fun _ hSame => Option.some.inj hSame ▸ lt_of_naturalOf hNew }
    case h_3 | h_7 => exact { hSlots with }
    case h_4 => exact { hSlots with width := fun _ hSame => Option.some.inj hSame ▸ lt_of_naturalOf hNew }
    case h_5 =>
      exact { hSlots with
        element := fun _ hSame => Option.some.inj hSame ▸ (hBounded.type new hNew).mono hDepth }
    case h_6 =>
      exact { hSlots with
        elements := fun _ hSame => Option.some.inj hSame ▸ tuple_of_elementsOf hBounded hDepth hNew }
    case h_8 =>
      exact { hSlots with
        fields := fun _ hSame => Option.some.inj hSame ▸ struct_of_fieldsOf hBounded hDepth hNew }

theorem encodable_of_ofRow {items : List Json} (hItems : ∀ item ∈ items, Bounded item ∧ item.depth ≤ d)
    {type : Descriptor} (h : ofRow kind items = .ok type) : type.Encodable (d + 1) := by
  cases items with
  | nil =>
    cases kind <;> cases h
    all_goals exact ⟨trivial, Nat.le_add_left 1 d⟩
  | cons first rest =>
    rw [List.forall_mem_cons] at hItems
    obtain ⟨⟨hFirst, hFirstDepth⟩, hRest⟩ := hItems
    cases kind with
    | field | boolean =>
      obtain ⟨-, -, hType⟩ := bind_eq_ok_iff.mp h
      cases hType
      exact ⟨trivial, Nat.le_add_left 1 d⟩
    | string =>
      obtain ⟨length, hLength, hEnd⟩ := bind_eq_ok_iff.mp h
      obtain ⟨-, -, hType⟩ := bind_eq_ok_iff.mp hEnd
      cases hType
      exact ⟨lt_of_naturalOf hLength, Nat.le_add_left 1 d⟩
    | tuple =>
      obtain ⟨elements, hElements, hEnd⟩ := bind_eq_ok_iff.mp h
      obtain ⟨-, -, hType⟩ := bind_eq_ok_iff.mp hEnd
      cases hType
      exact tuple_of_elementsOf hFirst hFirstDepth hElements
    | integer =>
      cases rest with
      | nil =>
        obtain ⟨-, -, hType⟩ := bind_eq_ok_iff.mp h
        cases hType
      | cons second rest =>
        obtain ⟨sign, -, hMore⟩ := bind_eq_ok_iff.mp h
        obtain ⟨width, hWidth, hEnd⟩ := bind_eq_ok_iff.mp hMore
        obtain ⟨-, -, hType⟩ := bind_eq_ok_iff.mp hEnd
        cases hType
        exact ⟨lt_of_naturalOf hWidth, Nat.le_add_left 1 d⟩
    | array =>
      cases rest with
      | nil =>
        obtain ⟨-, -, hType⟩ := bind_eq_ok_iff.mp h
        cases hType
      | cons second rest =>
        obtain ⟨hSecond, hSecondDepth⟩ := hRest second List.mem_cons_self
        obtain ⟨length, hLength, hMore⟩ := bind_eq_ok_iff.mp h
        obtain ⟨element, hElement, hEnd⟩ := bind_eq_ok_iff.mp hMore
        obtain ⟨-, -, hType⟩ := bind_eq_ok_iff.mp hEnd
        cases hType
        exact encodable_array_iff.mpr
          ⟨lt_of_naturalOf hLength, (hSecond.type element hElement).mono hSecondDepth⟩
    | struct =>
      cases rest with
      | nil =>
        obtain ⟨-, -, hType⟩ := bind_eq_ok_iff.mp h
        cases hType
      | cons second rest =>
        obtain ⟨hSecond, hSecondDepth⟩ := hRest second List.mem_cons_self
        obtain ⟨path, -, hMore⟩ := bind_eq_ok_iff.mp h
        obtain ⟨fields, hFields, hEnd⟩ := bind_eq_ok_iff.mp hMore
        obtain ⟨-, -, hType⟩ := bind_eq_ok_iff.mp hEnd
        cases hType
        exact struct_of_fieldsOf hSecond hSecondDepth hFields path

theorem forall_encodable_of_listOf {items : List Json}
    (hItems : ∀ item ∈ items, Bounded item ∧ item.depth ≤ d) {types : List Descriptor}
    (h : listOf items = .ok types) : ∀ type ∈ types, type.Encodable d := by
  induction items generalizing types with
  | nil =>
    cases h
    nofun
  | cons item rest ih =>
    rw [List.forall_mem_cons] at hItems
    obtain ⟨type, hType, hMore⟩ := bind_eq_ok_iff.mp h
    obtain ⟨more, hRest, hTypes⟩ := bind_eq_ok_iff.mp hMore
    cases hTypes
    rw [List.forall_mem_cons]
    exact ⟨(hItems.1.1.type type hType).mono hItems.1.2, ih hItems.2 hRest⟩

theorem forall_encodable_of_fieldListOf {items : List Json}
    (hItems : ∀ item ∈ items, Bounded item ∧ item.depth ≤ d) {fields : Entries Descriptor}
    (h : fieldListOf items = .ok fields) : ∀ field ∈ fields, EncodableField field d := by
  induction items generalizing fields with
  | nil =>
    cases h
    nofun
  | cons item rest ih =>
    rw [List.forall_mem_cons] at hItems
    obtain ⟨field, hField, hMore⟩ := bind_eq_ok_iff.mp h
    obtain ⟨more, hRest, hFields⟩ := bind_eq_ok_iff.mp hMore
    cases hFields
    rw [List.forall_mem_cons]
    exact ⟨(hItems.1.1.field field hField).mono hItems.1.2, ih hItems.2 hRest⟩

theorem encodable_of_fieldSlots {members : Entries Json}
    (hMembers : ∀ member ∈ members, Bounded member.2 ∧ member.2.depth ≤ d) {name : Option String}
    {type : Option Descriptor} (hType : ∀ found, type = some found → found.Encodable d)
    {field : String × Descriptor} (h : fieldSlots name type members = .ok field) : field.2.Encodable d := by
  induction members generalizing name type with
  | nil =>
    obtain ⟨found, -, hMore⟩ := bind_eq_ok_iff.mp h
    obtain ⟨declared, hFound, hField⟩ := bind_eq_ok_iff.mp hMore
    cases hField
    exact hType declared (Json.required_eq_ok_iff.mp hFound)
  | cons member rest ih =>
    obtain ⟨key, json⟩ := member
    rw [List.forall_mem_cons] at hMembers
    obtain ⟨⟨hBounded, hDepth⟩, hRest⟩ := hMembers
    rw [fieldSlots] at h
    split at h
    · obtain ⟨value, -, hMore⟩ := bind_eq_ok_iff.mp h
      exact ih hRest hType hMore
    · split at h
      · obtain ⟨value, hValue, hMore⟩ := bind_eq_ok_iff.mp h
        obtain ⟨new, hNew, rfl⟩ := exists_of_fresh hValue
        have hFound : new.Encodable d := (hBounded.type new hNew).mono hDepth
        exact ih hRest (fun found hSame => Option.some.inj hSame ▸ hFound) hMore
      · exact ih hRest hType h

end

theorem bounded_array {items : List Json} (ih : ∀ item ∈ items, Bounded item) : Bounded (.array items) := by
  have hItems : ∀ item ∈ items, Bounded item ∧ item.depth ≤ Json.itemsDepth items := fun item hItem =>
    ⟨ih item hItem, Json.itemsDepth_le_iff.mp (Nat.le_refl _) item hItem⟩
  constructor
  · intro type h
    cases items with
    | nil => cases h
    | cons tag items =>
      obtain ⟨kind, -, hRow⟩ := bind_eq_ok_iff.mp h
      exact encodable_of_ofRow (fun item hItem => hItems item (List.mem_cons_of_mem _ hItem)) hRow
  · exact fun types h => ⟨_, rfl, forall_encodable_of_listOf hItems h⟩
  · exact fun fields h => ⟨_, rfl, forall_encodable_of_fieldListOf hItems h⟩
  · intro field h
    match items with
    | [] => cases h
    | [name] =>
      obtain ⟨-, -, hField⟩ := bind_eq_ok_iff.mp h
      cases hField
    | name :: json :: rest =>
      obtain ⟨found, -, hMore⟩ := bind_eq_ok_iff.mp h
      obtain ⟨type, hType, hEnd⟩ := bind_eq_ok_iff.mp hMore
      obtain ⟨-, -, hField⟩ := bind_eq_ok_iff.mp hEnd
      cases hField
      obtain ⟨hBounded, hDepth⟩ := hItems json (List.mem_cons_of_mem _ List.mem_cons_self)
      exact encodableField_iff.mpr ((hBounded.type type hType).mono hDepth)

theorem bounded_object {members : Entries Json} (ih : ∀ member ∈ members, Bounded member.2) :
    Bounded (.object members) := by
  have hMembers : ∀ member ∈ members, Bounded member.2 ∧ member.2.depth ≤ Json.membersDepth members :=
    fun member hMember => ⟨ih member hMember, Json.membersDepth_le_iff.mp (Nat.le_refl _) member hMember⟩
  constructor
  · intro type h
    obtain ⟨kind, -, hSlots⟩ := bind_eq_ok_iff.mp h
    obtain ⟨slots, hRead, hFinish⟩ := bind_eq_ok_iff.mp hSlots
    exact encodable_of_finish (within_of_slotsOf hMembers (Slots.within_empty _) hRead) hFinish
  · intro types h
    cases h
  · intro fields h
    cases h
  · intro field h
    refine encodableField_iff.mpr (encodable_of_fieldSlots hMembers ?_ h)
    nofun

theorem bounded (json : Json) : Bounded json := by
  induction json with
  | null | bool _ | string _ => exact ⟨nofun, nofun, nofun, nofun⟩
  | number n =>
    have hType : ∀ type, ofVerbatim (.number n) ≠ .ok type := by
      intro type h
      rw [ofVerbatim] at h
      split at h <;> cases h
    have hField : ∀ field, fieldOf (.number n) ≠ .ok field := by
      intro field h
      rw [fieldOf] at h
      split at h <;> cases h
    constructor
    · exact fun type h => absurd h (hType type)
    · intro types h
      cases h
    · intro fields h
      cases h
    · exact fun field h => absurd h (hField field)
  | array items ih => exact bounded_array ih
  | object members ih => exact bounded_object ih

theorem forall_depth_of_taggedMember {depth : Nat} {state next : Option Kind × Entries Json} {name : String}
    {text rest : Bytes} (hState : ∀ member ∈ state.2, member.2.depth ≤ depth)
    (h : taggedMember depth state name text = .ok (next, rest)) :
    ∀ member ∈ next.2, member.2.depth ≤ depth := by
  rw [taggedMember] at h
  split at h
  · split at h
    · cases h
    · obtain ⟨behind, -, hKind⟩ := bind_eq_ok_iff.mp h
      obtain ⟨found, -, hNext⟩ := bind_eq_ok_iff.mp hKind
      cases hNext
      exact hState
  · obtain ⟨behind, -, hValue⟩ := bind_eq_ok_iff.mp h
    obtain ⟨⟨json, after⟩, hJson, hNext⟩ := bind_eq_ok_iff.mp hValue
    cases hNext
    have hDepth := Json.depth_le_of_value (Json.within_eq_ok_iff.mp hJson)
    intro member hMember
    rcases List.mem_append.mp hMember with hOld | hNew
    · exact hState member hOld
    · rw [List.mem_singleton.mp hNew]
      exact hDepth

theorem encodable_of_taggedObject {depth : Nat} {text rest : Bytes} {type : Descriptor}
    (h : taggedObject depth text = .ok (.ok type, rest)) : type.Encodable (depth + 1) := by
  obtain ⟨⟨⟨kind, members⟩, behind⟩, hMembers, hKind⟩ := bind_eq_ok_iff.mp h
  cases kind with
  | none => cases hKind
  | some kind =>
    obtain ⟨hType, -⟩ := Prod.mk.inj (Except.ok.inj hKind)
    obtain ⟨slots, hSlots, hFinish⟩ := bind_eq_ok_iff.mp hType
    have hNone : ∀ member ∈ ([] : Entries Json), member.2.depth ≤ depth := nofun
    have hDepths := Json.members_induction (motive := fun state : Option Kind × Entries Json =>
      ∀ member ∈ state.2, member.2.depth ≤ depth) (fun _ _ _ _ _ => forall_depth_of_taggedMember) hNone hMembers
    have hBounded := fun member hMember => And.intro (bounded member.2) (hDepths member hMember)
    exact encodable_of_finish (within_of_slotsOf hBounded (Slots.within_empty _) hSlots) hFinish

theorem encodable_of_taggedRow {depth : Nat} {text rest : Bytes} {type : Descriptor}
    (h : taggedRow depth text = .ok (.ok type, rest)) : type.Encodable (depth + 1) := by
  obtain ⟨⟨kind, behind⟩, -, hKind⟩ := bind_eq_ok_iff.mp h
  cases kind with
  | none => cases hKind
  | some kind =>
    obtain ⟨⟨items, after⟩, hItems, hRow⟩ := bind_eq_ok_iff.mp hKind
    obtain ⟨hType, -⟩ := Prod.mk.inj (Except.ok.inj hRow)
    have hDepths := Json.forall_of_elements (fun _ _ _ => Json.depth_le_of_value) hItems
    exact encodable_of_ofRow (fun item hItem => ⟨bounded item, hDepths item hItem⟩) hType

/-- A descriptor can be written within the brackets its reader was allowed to open. -/
theorem encodable_of_decoder {depth : Nat} {text rest : Bytes} {type : Descriptor}
    (h : decoder depth text = .ok (type, rest)) : type.Encodable depth := by
  obtain ⟨⟨result, after⟩, hBrackets, hResult⟩ := bind_eq_ok_iff.mp h
  cases result with
  | error _ => cases hResult
  | ok found =>
    cases hResult
    obtain ⟨d, inner, rfl, hRow | hObject⟩ | ⟨inner, hOther⟩ := Json.Decoder.brackets_cases hBrackets
    · obtain ⟨inside, hInside, -⟩ := Json.closing_eq_ok_iff.mp hRow
      exact encodable_of_taggedRow hInside
    · obtain ⟨inside, hInside, -⟩ := Json.closing_eq_ok_iff.mp hObject
      exact encodable_of_taggedObject hInside
    · cases hOther

end Descriptor

end CircuitForm
