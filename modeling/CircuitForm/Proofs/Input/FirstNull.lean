import CircuitForm.Proofs.Input.Document
import CircuitForm.Proofs.Input.Readers
import CircuitForm.Proofs.Input.Relative
import CircuitForm.Proofs.Json.Nodes

/-!
# The first null of a value

A JSON value is made a literal, with the place of a `null` as the only error, or it is made a tree, with no
place. Both go through the value in the order in which it is written and stop at the first `null`. So they
take the same values, those without a `null`, and the error is at the first one of the others.
-/

namespace CircuitForm

open InputError (rebase)

namespace Literal

theorem errorOf?_itemsOfJson (path : Path) (index : Nat) (items : List Json) :
    errorOf? (itemsOfJson path index items) =
      ((items.zipIdx index).map fun (item, i) => (Segment.index i, item)).findSome? fun part =>
        errorOf? (ofJsonAt (path.child part.1) part.2) := by
  induction items generalizing index with
  | nil => rfl
  | cons item rest ih =>
    rw [itemsOfJson, errorOf?_both, ih, List.zipIdx_cons, List.map_cons, List.findSome?_cons]
    cases errorOf? (ofJsonAt (path.child (.index index)) item) <;> rfl

theorem errorOf?_entriesOfJson (path : Path) (members : Entries Json) :
    errorOf? (entriesOfJson path members) =
      (members.map fun (name, item) => (Segment.key name, item)).findSome? fun part =>
        errorOf? (ofJsonAt (path.child part.1) part.2) := by
  induction members with
  | nil => rfl
  | cons member rest ih =>
    obtain ⟨name, item⟩ := member
    rw [entriesOfJson, errorOf?_both, ih, List.map_cons, List.findSome?_cons]
    cases errorOf? (ofJsonAt (path.child (.key name)) item) <;> rfl

theorem errorOf?_ofJsonAt {json : Json} (hNull : json ≠ .null) (path : Path) :
    errorOf? (ofJsonAt path json) =
      json.parts.findSome? fun part => errorOf? (ofJsonAt (path.child part.1) part.2) := by
  cases json with
  | null => exact absurd rfl hNull
  | bool _ | number _ | string _ => rfl
  | array items => rw [ofJsonAt, errorOf?_map, errorOf?_itemsOfJson, Json.parts]
  | object members => rw [ofJsonAt, errorOf?_map, errorOf?_entriesOfJson, Json.parts]

variable {json : Json} {path : Path} {error : InputError}

/-- A value is refused for being `null`, or for the first of its parts that is refused. -/
theorem ofJsonAt_eq_error_iff :
    ofJsonAt path json = .error error ↔ (json = .null ∧ error = nullError path) ∨
      ∃ front segment item back, json.parts = front ++ (segment, item) :: back ∧
        ofJsonAt (path.child segment) item = .error error ∧
        ∀ part ∈ front, ∃ literal, ofJsonAt (path.child part.1) part.2 = .ok literal := by
  by_cases hNull : json = .null
  · subst hNull
    constructor
    · rintro ⟨⟩
      exact .inl ⟨rfl, rfl⟩
    · rintro (⟨-, rfl⟩ | ⟨front, segment, item, back, hParts, -⟩)
      · rfl
      · simp [Json.parts] at hParts
  · rw [← errorOf?_eq_some_iff, errorOf?_ofJsonAt hNull, List.findSome?_eq_some_iff]
    simp only [errorOf?_eq_some_iff, errorOf?_eq_none_iff, hNull, false_and, false_or, Prod.exists]

theorem exists_error_of_at? {other : Path} (h : json.at? other = some .null) (path : Path) :
    ∃ error, ofJsonAt path json = .error error := by
  induction other generalizing json path with
  | nil =>
    cases h
    exact ⟨nullError path, rfl⟩
  | cons segment rest ih =>
    obtain ⟨item, hChild, hRest⟩ := Option.bind_eq_some_iff.mp h
    obtain ⟨error, hError⟩ := ih hRest (path.child segment)
    cases hLiteral : ofJsonAt path json with
    | error error => exact ⟨error, rfl⟩
    | ok literal =>
      have hNone : errorOf? (ofJsonAt path json) = none := errorOf?_eq_none_iff.mpr ⟨literal, hLiteral⟩
      have hNull : json ≠ .null := by
        rintro rfl
        cases hLiteral
      rw [errorOf?_ofJsonAt hNull, List.findSome?_eq_none_iff] at hNone
      have hItem := hNone (segment, item) (Json.mem_parts_of_child hChild)
      rw [errorOf?_eq_some_iff.mpr hError] at hItem
      cases hItem

theorem findSome?_congr {α β : Type} {f g : α → Option β} {items : List α} (h : ∀ item ∈ items, f item = g item) :
    items.findSome? f = items.findSome? g := by
  induction items with
  | nil => rfl
  | cons item rest ih =>
    rw [List.forall_mem_cons] at h
    rw [List.findSome?_cons, List.findSome?_cons, h.1, ih h.2]

/-- A value is refused at every place as at the root, with the error anchored at the place. -/
theorem errorOf?_ofJsonAt_eq_map (json : Json) (path : Path) :
    errorOf? (ofJsonAt path json) = (errorOf? (ofJson json)).map (rebase path) := by
  induction json using Json.inductOnPart generalizing path with
  | step json ih =>
    by_cases hNull : json = .null
    · subst hNull
      simp [ofJson, ofJsonAt, errorOf?, nullError, rebase, Path.join]
    · rw [errorOf?_ofJsonAt hNull, ofJson, errorOf?_ofJsonAt hNull, List.map_findSome?]
      refine findSome?_congr fun part hPart => ?_
      obtain ⟨segment, item⟩ := part
      rw [Function.comp_apply, ih segment item hPart, ih segment item hPart, Option.map_map, rebase_child]
      rfl

/-- The error of a part is anchored at the part, so that of the whole is at the first `null` in it. -/
theorem first_of_ofJsonAt (hNames : json.DistinctNames) (h : ofJsonAt path json = .error error) :
    ∃ relative, error = nullError (path.join relative) ∧ json.at? relative = some .null ∧
      ∀ other, json.at? other = some .null → other = relative ∨ json.Before relative other := by
  induction json using Json.inductOnPart generalizing path with
  | step json ih =>
    obtain ⟨rfl, rfl⟩ | ⟨front, segment, item, back, hParts, hError, hFront⟩ := ofJsonAt_eq_error_iff.mp h
    · refine ⟨[], ?_, rfl, ?_⟩
      · rw [Path.join, List.append_nil]
      · rintro (_ | ⟨next, rest⟩) -
        · exact .inl rfl
        · exact .inr .nil
    · have hPart : (segment, item) ∈ json.parts := by simp [hParts]
      have hChild := hNames.child_of_mem_parts hPart
      obtain ⟨relative, rfl, hNull, hFirst⟩ := ih segment item hPart (hNames.child hChild) hError
      refine ⟨segment :: relative, ?_, ?_, ?_⟩
      · simp [Path.join, Path.child]
      · rw [Json.at?_cons, hChild]
        exact hNull
      intro other hOther
      cases other with
      | nil =>
        cases hOther
        cases hPart
      | cons next rest =>
        obtain ⟨found, hNext, hRest⟩ := Option.bind_eq_some_iff.mp hOther
        have hFound := Json.mem_parts_of_child hNext
        have hOrder := hNames.pairwise_parts
        rw [hParts, List.pairwise_append, List.pairwise_cons] at hOrder
        rw [hParts, List.mem_append, List.mem_cons] at hFound
        rw [Json.Before, Json.places, Json.places, hChild, hNext]
        -- What comes before the part was taken, so the other `null` is in the part or behind it.
        rcases hFound with hBefore | hSame | hBehind
        · obtain ⟨literal, hLiteral⟩ := hFront _ hBefore
          obtain ⟨refusal, hRefusal⟩ := exists_error_of_at? hRest (path.child next)
          cases hLiteral.symm.trans hRefusal
        · cases hSame
          rcases hFirst rest hRest with rfl | hLater
          · exact .inl rfl
          · exact .inr (.cons hLater)
        · exact .inr (.rel (hOrder.2.1.1 _ hBehind))

theorem exists_ofJson_iff : (∃ literal, ofJson json = .ok literal) ↔ json.NullFree := by
  rw [← InputTree.isSome_ofJson?_iff, Option.isSome_iff_exists]
  constructor
  · rintro ⟨literal, hLiteral⟩
    obtain ⟨tree, hTree, -⟩ := ofJsonAt_eq_ok_iff.mp hLiteral
    exact ⟨tree, hTree⟩
  · rintro ⟨tree, hTree⟩
    exact ⟨ofTree tree, ofJsonAt_eq_ok_iff.mpr ⟨tree, hTree, rfl⟩⟩

end Literal

/-- Both conversions take the values without a `null`, and the literal is that of the tree, entry by entry.
Of any other value the error has the path to a `null`, and all that are in the value come at or after it. -/
theorem conversions_agree (json : Json) :
    ((∃ literal, Literal.ofJson json = .ok literal) ↔ json.NullFree) ∧
    ((∃ tree, InputTree.ofJson? json = some tree) ↔ json.NullFree) ∧
    (∀ literal tree, Literal.ofJson json = .ok literal → InputTree.ofJson? json = some tree →
      Literal.ofTree tree = literal) ∧
    (json.DistinctNames → ∀ error, Literal.ofJson json = .error error →
      error = Literal.nullError error.path ∧ json.at? error.path = some .null ∧
      ∀ path, json.at? path = some .null → path = error.path ∨ json.Before error.path path) := by
  refine ⟨Literal.exists_ofJson_iff, ?_, ?_, ?_⟩
  · rw [← InputTree.isSome_ofJson?_iff, Option.isSome_iff_exists]
  · intro literal tree hLiteral hTree
    obtain ⟨other, hOther, rfl⟩ := Literal.ofJsonAt_eq_ok_iff.mp hLiteral
    cases hTree.symm.trans hOther
    rfl
  · intro hNames error hError
    obtain ⟨relative, rfl, hNull, hFirst⟩ := Literal.first_of_ofJsonAt hNames hError
    exact ⟨rfl, hNull, hFirst⟩

/-- The first `null` is deep in the first member, and the second one is the second member. -/
def nestedNulls : Json :=
  .object [("b", .array [.string "", .object [("a", .array [.bool true, .null])]]), ("a", .null)]

theorem ofText_nestedNulls : Json.ofText
    (Bytes.ofString "\x7b\"b\": [\"\", \x7b\"a\": [true, null]\x7d], \"a\": null\x7d") = .ok nestedNulls := rfl

theorem conversions_agree_nested :
    nestedNulls.DistinctNames ∧
    Literal.ofJson nestedNulls =
      .error (Literal.nullError [.key "b", .index 1, .key "a", .index 1]) ∧
    nestedNulls.at? [.key "b", .index 1, .key "a", .index 1] = some .null ∧
    nestedNulls.Before [.key "b", .index 1, .key "a", .index 1] [.key "a"] ∧
    ¬ nestedNulls.NullFree := by
  have hNames : nestedNulls.DistinctNames := Json.distinctNames_of_ofText ofText_nestedNulls
  have hError : Literal.ofJson nestedNulls =
      .error (Literal.nullError [.key "b", .index 1, .key "a", .index 1]) := rfl
  obtain ⟨hLiteral, -, -, hFirst⟩ := conversions_agree nestedNulls
  obtain ⟨-, hNull, hBehind⟩ := hFirst hNames _ hError
  refine ⟨hNames, hError, hNull, (hBehind [.key "a"] rfl).resolve_left (by decide), ?_⟩
  rw [← hLiteral]
  rintro ⟨literal, hSome⟩
  cases hError.symm.trans hSome

end CircuitForm
