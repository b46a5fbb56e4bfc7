import Mathlib.Data.List.Nodup
import CircuitForm.Path.Basic
import CircuitForm.Proofs.Json.Reading

/-!
# Nodes of JSON values

A path leads from a value through elements and members to a node in it. The parts of a node come in the
order in which they are written, so each node has its places on the way down. The order of these, place by
place, is the order of the nodes depth first: a node comes before all that is in it.
-/

namespace CircuitForm.Json

def child : Json → Segment → Option Json
  | .array items, .index i => items[i]?
  | .object members, .key name => members.lookup name
  | _, _ => none

def at? (json : Json) (path : Path) : Option Json :=
  path.foldlM child json

theorem at?_cons (json : Json) (segment : Segment) (rest : Path) :
    json.at? (segment :: rest) = (json.child segment).bind (·.at? rest) := rfl

/-- No object at any level has two members of one name. -/
def DistinctNames (json : Json) : Prop :=
  ∀ path members, json.at? path = some (.object members) → Entries.Distinct members

/-- The parts of a node as they are written. -/
def parts : Json → List (Segment × Json)
  | .array items => items.zipIdx.map fun (item, i) => (.index i, item)
  | .object members => members.map fun (name, item) => (.key name, item)
  | _ => []

/-- The place of a part among the parts of its node. -/
def position (json : Json) (segment : Segment) : Nat :=
  (json.parts.map Prod.fst).idxOf segment

/-- The place of each segment of a path, from the root down. -/
def places : Json → Path → List Nat
  | _, [] => []
  | json, segment :: rest =>
    json.position segment ::
      match json.child segment with
      | some item => item.places rest
      | none => []

/-- The node at the path comes before the one at the other path, depth first. -/
def Before (json : Json) (path other : Path) : Prop :=
  List.Lex (· < ·) (json.places path) (json.places other)

/-- Induction over a value by its parts. -/
theorem inductOnPart {motive : Json → Prop}
    (step : ∀ json, (∀ segment item, (segment, item) ∈ json.parts → motive item) → motive json)
    (json : Json) : motive json := by
  induction json with
  | null | bool _ | number _ | string _ => exact step _ nofun
  | array items ih =>
    refine step _ fun segment item hPart => ih item ?_
    obtain ⟨⟨_, i⟩, hItem, ⟨⟩⟩ := List.mem_map.mp hPart
    exact List.fst_mem_of_mem_zipIdx hItem
  | object members ih =>
    refine step _ fun segment item hPart => ?_
    obtain ⟨member, hMember, ⟨⟩⟩ := List.mem_map.mp hPart
    exact ih member hMember

variable {json item : Json} {segment : Segment}

theorem mem_parts_of_child (h : json.child segment = some item) : (segment, item) ∈ json.parts := by
  cases json with
  | null | bool _ | number _ | string _ => cases segment <;> cases h
  | array items =>
    cases segment with
    | key _ => cases h
    | index i => exact List.mem_map.mpr ⟨(item, i), List.mem_zipIdx_iff_getElem?.mpr h, rfl⟩
  | object members =>
    cases segment with
    | index _ => cases h
    | key name => exact List.mem_map.mpr ⟨(name, item), Entries.mem_of_lookup h, rfl⟩

namespace DistinctNames

theorem child (h : json.DistinctNames) (hChild : json.child segment = some item) : item.DistinctNames := by
  intro path members hMembers
  refine h (segment :: path) members ?_
  rw [at?_cons, hChild]
  exact hMembers

theorem child_of_mem_parts (h : json.DistinctNames) (hPart : (segment, item) ∈ json.parts) :
    json.child segment = some item := by
  cases json with
  | null | bool _ | number _ | string _ => cases hPart
  | array items =>
    obtain ⟨⟨_, i⟩, hItem, ⟨⟩⟩ := List.mem_map.mp hPart
    exact List.mem_zipIdx_iff_getElem?.mp hItem
  | object members =>
    obtain ⟨⟨name, _⟩, hMember, ⟨⟩⟩ := List.mem_map.mp hPart
    exact Entries.lookup_of_mem (h [] members rfl) hMember

theorem nodup_segments (h : json.DistinctNames) : (json.parts.map Prod.fst).Nodup := by
  cases json with
  | null | bool _ | number _ | string _ => exact List.nodup_nil
  | array items =>
    have hIndexes : (items.zipIdx.map Prod.snd).Nodup := by
      rw [List.zipIdx_map_snd]
      exact List.nodup_range'
    rw [parts, List.map_map]
    have hSegments := hIndexes.map fun _ _ => Segment.index.inj
    rwa [List.map_map] at hSegments
  | object members =>
    have hSegments := (h [] members rfl).map fun _ _ => Segment.key.inj
    rw [parts, List.map_map]
    rwa [Entries.names, List.map_map] at hSegments

theorem pairwise_parts (h : json.DistinctNames) :
    json.parts.Pairwise fun part later => json.position part.1 < json.position later.1 := by
  have hOrder := Entries.pairwise_idxOf h.nodup_segments
  rwa [List.pairwise_map] at hOrder

end DistinctNames

theorem Plain.child (h : json.Plain) (hChild : json.child segment = some item) : item.Plain := by
  cases json with
  | null | bool _ | number _ | string _ => cases segment <;> cases hChild
  | array items =>
    cases segment with
    | key _ => cases hChild
    | index i => exact plain_array_iff.mp h item (List.mem_of_getElem? hChild)
  | object members =>
    cases segment with
    | index _ => cases hChild
    | key name => exact (plain_object_iff.mp h).2.2 (name, item) (Entries.mem_of_lookup hChild)

theorem Plain.distinctNames (h : json.Plain) : json.DistinctNames := by
  intro path members hMembers
  induction path generalizing json with
  | nil =>
    cases hMembers
    exact (plain_object_iff.mp h).1
  | cons segment rest ih =>
    obtain ⟨item, hChild, hMembers⟩ := Option.bind_eq_some_iff.mp hMembers
    exact ih (h.child hChild) hMembers

/-- Of members of one name that are written, a text read as data has only the last. -/
theorem distinctNames_of_ofText {text : Bytes} (h : ofText text = .ok json) : json.DistinctNames := by
  obtain ⟨rest, hValue, -⟩ := ofText_eq_ok_iff.mp h
  exact (plain_of_value hValue).distinctNames

end CircuitForm.Json
