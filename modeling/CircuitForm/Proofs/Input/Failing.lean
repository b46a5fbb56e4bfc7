import Mathlib.Data.List.Pairwise
import CircuitForm.Proofs.Descriptor.Nesting
import CircuitForm.Proofs.Input.Descent
import CircuitForm.Proofs.Input.Refusal
import CircuitForm.Proofs.Input.Relative
import CircuitForm.Proofs.Path.Apart

/-!
# Failing nodes

A node is a path that the type and the literal both have, and it fails or passes for itself. A check
reports the failing nodes that have none above them, depth first, an element by its index and a field
by the place of its declaration.
-/

namespace CircuitForm

open InputError (rebase)

namespace Descriptor

/-- The place of a part among the parts of its node. -/
def position : Descriptor → Segment → Nat
  | _, .index i => i
  | .struct _ fields, .key name => (Entries.names fields).idxOf name
  | _, .key _ => 0

/-- The paths part at some node, and the first of them takes the earlier part. -/
inductive Before : Descriptor → Path → Path → Prop where
  | here {type : Descriptor} {a b : Segment} {p q : Path} (h : type.position a < type.position b) :
      Before type (a :: p) (b :: q)
  | deeper {type declared : Descriptor} {a : Segment} {p q : Path} (hChild : type.child a = some declared)
      (h : Before declared p q) : Before type (a :: p) (a :: q)

theorem Before.apart {type : Descriptor} {p q : Path} (h : type.Before p q) : p.Apart q := by
  induction h with
  | here hPosition =>
    rw [Path.apart_cons_iff]
    rintro rfl
    exact absurd hPosition (Nat.lt_irrefl _)
  | deeper _ _ ih =>
    rw [Path.apart_cons_iff]
    exact fun _ => ih

end Descriptor

section

variable {type : Descriptor} {literal : Literal} {segment : Segment} {path rest : Path} {fault : InputFault}

/-- There is a node at the path, and the fault is what is wrong with the node itself. -/
def FailsAt (type : Descriptor) (literal : Literal) (path : Path) (fault : InputFault) : Prop :=
  ∃ declared below, type.at? path = some declared ∧ literal.at? path = some below ∧
    Fails declared below fault

/-- The node at the path fails, and no node above it does. -/
def Exposed (type : Descriptor) (literal : Literal) (path : Path) (fault : InputFault) : Prop :=
  FailsAt type literal path fault ∧
    ∀ above, above <+: path → above ≠ path → ∀ other, ¬ FailsAt type literal above other

theorem failsAt_nil_iff : FailsAt type literal [] fault ↔ Fails type literal fault := by
  constructor
  · rintro ⟨_, _, ⟨⟩, ⟨⟩, hFails⟩
    exact hFails
  · intro hFails
    exact ⟨type, literal, rfl, rfl, hFails⟩

theorem failsAt_cons_iff :
    FailsAt type literal (segment :: rest) fault ↔
      ∃ declared below, type.child segment = some declared ∧ literal.child segment = some below ∧
        FailsAt declared below rest fault := by
  constructor
  · rintro ⟨type', literal', hType, hLiteral, hFails⟩
    obtain ⟨declared, hDeclared, hType⟩ := Option.bind_eq_some_iff.mp hType
    obtain ⟨below, hBelow, hLiteral⟩ := Option.bind_eq_some_iff.mp hLiteral
    exact ⟨declared, below, hDeclared, hBelow, type', literal', hType, hLiteral, hFails⟩
  · rintro ⟨declared, below, hDeclared, hBelow, type', literal', hType, hLiteral, hFails⟩
    refine ⟨type', literal', ?_, ?_, hFails⟩
    · rw [Descriptor.at?_cons, hDeclared]
      exact hType
    · rw [Literal.at?_cons, hBelow]
      exact hLiteral

theorem exposed_nil_iff : Exposed type literal [] fault ↔ Fails type literal fault := by
  rw [Exposed, failsAt_nil_iff, and_iff_left]
  intro above hAbove hProper
  exact absurd (List.prefix_nil.mp hAbove) hProper

theorem exposed_cons_iff :
    Exposed type literal (segment :: rest) fault ↔
      Passes type literal ∧ ∃ declared below, type.child segment = some declared ∧
        literal.child segment = some below ∧ Exposed declared below rest fault := by
  constructor
  · rintro ⟨hFails, hAbove⟩
    obtain ⟨declared, below, hDeclared, hBelow, hRest⟩ := failsAt_cons_iff.mp hFails
    refine ⟨?_, declared, below, hDeclared, hBelow, hRest, ?_⟩
    · intro other hOther
      exact hAbove [] List.nil_prefix nofun other (failsAt_nil_iff.mpr hOther)
    · intro above hPrefix hProper other hOther
      refine hAbove (segment :: above) (List.cons_prefix_cons.mpr ⟨rfl, hPrefix⟩) ?_ other ?_
      · simpa using hProper
      · exact failsAt_cons_iff.mpr ⟨declared, below, hDeclared, hBelow, hOther⟩
  · rintro ⟨hPasses, declared, below, hDeclared, hBelow, hRest, hAbove⟩
    refine ⟨failsAt_cons_iff.mpr ⟨declared, below, hDeclared, hBelow, hRest⟩, ?_⟩
    intro above hPrefix hProper other hOther
    obtain rfl | ⟨front, rfl, hFront⟩ := List.prefix_cons_iff.mp hPrefix
    · exact hPasses other (failsAt_nil_iff.mp hOther)
    · obtain ⟨declared', below', hDeclared', hBelow', hOther⟩ := failsAt_cons_iff.mp hOther
      obtain rfl : declared' = declared := Option.some.inj (hDeclared'.symm.trans hDeclared)
      obtain rfl : below' = below := Option.some.inj (hBelow'.symm.trans hBelow)
      exact hAbove front hFront (by simpa using hProper) other hOther

/-- On the way to a node that fails there is a first one. -/
theorem FailsAt.exists_exposed (h : FailsAt type literal path fault) :
    ∃ above other, Exposed type literal above other := by
  induction path generalizing type literal with
  | nil => exact ⟨[], fault, exposed_nil_iff.mpr (failsAt_nil_iff.mp h)⟩
  | cons segment rest ih =>
    by_cases hPasses : Passes type literal
    · obtain ⟨declared, below, hDeclared, hBelow, hRest⟩ := failsAt_cons_iff.mp h
      obtain ⟨above, other, hExposed⟩ := ih hRest
      exact ⟨segment :: above, other,
        exposed_cons_iff.mpr ⟨hPasses, declared, below, hDeclared, hBelow, hExposed⟩⟩
    · rw [Passes, not_forall_not] at hPasses
      obtain ⟨other, hOther⟩ := hPasses
      exact ⟨[], other, exposed_nil_iff.mpr hOther⟩

end

section

variable {type : Descriptor} {literal : Literal}

theorem Passes.suits (h : Passes type literal) : Suits type literal :=
  Classical.byContradiction fun hKind => h _ (.kind hKind)

theorem mem_parts_array_iff {length : Nat} {element : Descriptor} {items : List Literal}
    (hLength : items.length = length) {segment : Segment} {declared : Descriptor} {below : Literal} :
    (segment, declared, below) ∈ parts (.array length element) (.array items) ↔
      (Descriptor.array length element).child segment = some declared ∧
        (Literal.array items).child segment = some below := by
  subst hLength
  rw [parts, List.mem_map]
  constructor
  · rintro ⟨⟨_, i⟩, hMember, ⟨⟩⟩
    have hItem : items[i]? = some below := List.mem_zipIdx_iff_getElem?.mp hMember
    obtain ⟨hIndex, -⟩ := List.getElem?_eq_some_iff.mp hItem
    exact ⟨if_pos hIndex, hItem⟩
  · rintro ⟨hDeclared, hBelow⟩
    cases segment with
    | key _ => cases hDeclared
    | index i =>
      obtain ⟨-, ⟨⟩⟩ := Option.ite_none_right_eq_some.mp hDeclared
      exact ⟨(below, i), List.mem_zipIdx_iff_getElem?.mpr hBelow, rfl⟩

theorem mem_parts_tuple_iff {elements : List Descriptor} {items : List Literal} {segment : Segment}
    {declared : Descriptor} {below : Literal} :
    (segment, declared, below) ∈ parts (.tuple elements) (.array items) ↔
      (Descriptor.tuple elements).child segment = some declared ∧
        (Literal.array items).child segment = some below := by
  rw [parts, List.mem_map]
  constructor
  · rintro ⟨⟨⟨element, item⟩, i⟩, hItem, ⟨⟩⟩
    exact List.getElem?_zip_eq_some.mp (List.mem_zipIdx_iff_getElem?.mp hItem)
  · rintro ⟨hDeclared, hBelow⟩
    cases segment with
    | key _ => cases hDeclared
    | index i =>
      have hPair : (elements.zip items)[i]? = some (declared, below) :=
        List.getElem?_zip_eq_some.mpr ⟨hDeclared, hBelow⟩
      exact ⟨((declared, below), i), List.mem_zipIdx_iff_getElem?.mpr hPair, rfl⟩

theorem mem_parts_struct_iff {path : String} {fields : Entries Descriptor} (hDistinct : fields.Distinct)
    {entries : Entries Literal} {segment : Segment} {declared : Descriptor} {below : Literal} :
    (segment, declared, below) ∈ parts (.struct path fields) (.object entries) ↔
      (Descriptor.struct path fields).child segment = some declared ∧
        (Literal.object entries).child segment = some below := by
  rw [parts, List.mem_filterMap]
  constructor
  · rintro ⟨⟨name, type⟩, hField, hEntry⟩
    obtain ⟨item, hItem, ⟨⟩⟩ := Option.map_eq_some_iff.mp hEntry
    exact ⟨Entries.lookup_of_mem hDistinct hField, hItem⟩
  · rintro ⟨hDeclared, hBelow⟩
    cases segment with
    | index _ => cases hDeclared
    | key name =>
      refine ⟨(name, declared), Entries.mem_of_lookup hDeclared, ?_⟩
      exact Option.map_eq_some_iff.mpr ⟨below, hBelow, rfl⟩

theorem mem_parts_iff (hNames : type.DistinctNames) (hPasses : Passes type literal) {segment : Segment}
    {declared : Descriptor} {below : Literal} :
    (segment, declared, below) ∈ parts type literal ↔
      type.child segment = some declared ∧ literal.child segment = some below := by
  cases type with
  | field | boolean | string _ | integer _ _ =>
    rw [parts_of_isScalar rfl]
    simp [Descriptor.child]
  | array length element =>
    cases literal with
    | array items => exact mem_parts_array_iff (Decidable.byContradiction fun h => hPasses _ (.items h))
    | number _ | boolean _ | string _ | object _ => exact hPasses.suits.elim
  | tuple elements =>
    cases literal with
    | array items => exact mem_parts_tuple_iff
    | number _ | boolean _ | string _ | object _ => exact hPasses.suits.elim
  | struct path fields =>
    cases literal with
    | object entries => exact mem_parts_struct_iff (Descriptor.distinctNames_struct_iff.mp hNames).1
    | number _ | boolean _ | string _ | array _ => exact hPasses.suits.elim

theorem pairwise_snd_zipIdx {α : Type} (items : List α) :
    items.zipIdx.Pairwise fun item later => item.2 < later.2 := by
  rw [← List.pairwise_map (R := (· < ·)), List.zipIdx_map_snd]
  exact List.pairwise_lt_range'

theorem pairwise_parts (hNames : type.DistinctNames) :
    (parts type literal).Pairwise fun part later => type.position part.1 < type.position later.1 := by
  cases type with
  | field | boolean | string _ | integer _ _ =>
    rw [parts_of_isScalar rfl]
    exact .nil
  | array length element =>
    cases literal with
    | array items =>
      rw [parts, List.pairwise_map]
      exact pairwise_snd_zipIdx items
    | number _ | boolean _ | string _ | object _ => exact .nil
  | tuple elements =>
    cases literal with
    | array items =>
      rw [parts, List.pairwise_map]
      exact pairwise_snd_zipIdx _
    | number _ | boolean _ | string _ | object _ => exact .nil
  | struct path fields =>
    cases literal with
    | object entries =>
      have hDistinct := (Descriptor.distinctNames_struct_iff.mp hNames).1
      have hOrder := List.pairwise_map.mp (Entries.pairwise_idxOf hDistinct)
      rw [parts, List.pairwise_filterMap]
      refine hOrder.imp fun hField first hFirst second hSecond => ?_
      obtain ⟨_, -, rfl⟩ := Option.map_eq_some_iff.mp hFirst
      obtain ⟨_, -, rfl⟩ := Option.map_eq_some_iff.mp hSecond
      exact hField
    | number _ | boolean _ | string _ | array _ => exact .nil

end

section

variable {type : Descriptor} {literal : Literal}

theorem reported_cases (type : Descriptor) (literal : Literal) :
    (∃ fault, Fails type literal fault ∧ reported type literal = [⟨[], fault⟩]) ∨
      Passes type literal ∧ reported type literal = spread (parts type literal) [] := by
  obtain ⟨fault, hFails, hCoerce⟩ | ⟨hPasses, value, hCoerce⟩ := judged type literal
  · exact .inl ⟨fault, hFails, by rw [reported, hCoerce]; rfl⟩
  · exact .inr ⟨hPasses, by rw [reported, hCoerce]; rfl⟩

theorem mem_reported_iff (hNames : type.DistinctNames) {path : Path} {fault : InputFault} :
    ⟨path, fault⟩ ∈ reported type literal ↔ Exposed type literal path fault := by
  induction type using Descriptor.inductOnChild generalizing literal path fault with
  | step type ih =>
    obtain ⟨first, hFails, hReported⟩ | ⟨hPasses, hReported⟩ := reported_cases type literal
    -- A node that fails hides all that is below it, so only the root is exposed.
    · rw [hReported, List.mem_singleton]
      constructor
      · rintro ⟨⟩
        exact exposed_nil_iff.mpr hFails
      · intro hExposed
        cases path with
        | nil => rw [hFails.unique (exposed_nil_iff.mp hExposed)]
        | cons segment rest => exact absurd hFails ((exposed_cons_iff.mp hExposed).1 first)
    -- A node that passes hides nothing, so what is exposed in a part is exposed in the whole.
    · rw [hReported, spread, List.mem_flatMap]
      constructor
      · rintro ⟨⟨segment, declared, below⟩, hPart, hError⟩
        obtain ⟨hDeclared, hBelow⟩ := (mem_parts_iff hNames hPasses).mp hPart
        obtain ⟨⟨rest, other⟩, hOther, ⟨⟩⟩ := List.mem_map.mp hError
        have hExposed := (ih segment declared hDeclared (hNames.child hDeclared)).mp hOther
        exact exposed_cons_iff.mpr ⟨hPasses, declared, below, hDeclared, hBelow, hExposed⟩
      · intro hExposed
        cases path with
        | nil => exact absurd (exposed_nil_iff.mp hExposed) (hPasses fault)
        | cons segment rest =>
          obtain ⟨-, declared, below, hDeclared, hBelow, hRest⟩ := exposed_cons_iff.mp hExposed
          have hOther := (ih segment declared hDeclared (hNames.child hDeclared)).mpr hRest
          refine ⟨(segment, declared, below), (mem_parts_iff hNames hPasses).mpr ⟨hDeclared, hBelow⟩, ?_⟩
          exact List.mem_map.mpr ⟨⟨rest, fault⟩, hOther, rfl⟩

theorem pairwise_reported (hNames : type.DistinctNames) (literal : Literal) :
    (reported type literal).Pairwise fun error later => type.Before error.path later.path := by
  induction type using Descriptor.inductOnChild generalizing literal with
  | step type ih =>
    obtain ⟨first, -, hReported⟩ | ⟨hPasses, hReported⟩ := reported_cases type literal
    · rw [hReported]
      exact List.pairwise_singleton _ _
    · rw [hReported, spread, List.pairwise_flatMap]
      constructor
      · rintro ⟨segment, declared, below⟩ hPart
        obtain ⟨hDeclared, -⟩ := (mem_parts_iff hNames hPasses).mp hPart
        rw [List.pairwise_map]
        exact (ih segment declared hDeclared (hNames.child hDeclared) below).imp (.deeper hDeclared)
      · refine (pairwise_parts hNames).imp fun hOrder error hError later hLater => ?_
        obtain ⟨_, -, rfl⟩ := List.mem_map.mp hError
        obtain ⟨_, -, rfl⟩ := List.mem_map.mp hLater
        exact .here hOrder

end

end CircuitForm
