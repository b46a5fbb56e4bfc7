import CircuitForm.Path.Json
import CircuitForm.Proofs.Json.Forms

/-!
# Paths and their serialized form

The serialized form of a path is a list of scalars, numbers for indexes and strings for keys. It is
read back as that list whatever the keys are, and the kind of each item tells what segment it is.
-/

namespace CircuitForm

open Json (depthLimit compactForm)

namespace Segment

/-- An index fits into a word; a key may be any string. -/
def InWord : Segment → Prop
  | .index i => i < Word.bound64
  | .key _ => True

theorem ofJson_toJson {segment : Segment} (h : segment.InWord) : ofJson segment.toJson = .ok segment := by
  cases segment with
  | index i =>
    have hRange : (0 : Int) ≤ i ∧ (i : Int) < Word.bound64 := ⟨Int.natCast_nonneg i, Int.ofNat_lt.mpr h⟩
    simp only [toJson, ofJson, Numeral.int?_ofNat, if_pos hRange, Int.toNat_natCast]
  | key name => rfl

theorem toJson_injective : Function.Injective toJson := by
  intro segment other h
  cases segment with
  | index i =>
    cases other with
    | index j =>
      have hNumber := congrArg Numeral.natural? (Json.number.inj h)
      rw [Numeral.natural?_ofNat, Numeral.natural?_ofNat] at hNumber
      exact congrArg index (Option.some.inj hNumber)
    | key _ => cases h
  | key name =>
    cases other with
    | index _ => cases h
    | key _ => exact congrArg key (Json.string.inj h)

theorem depth_toJson (segment : Segment) : segment.toJson.depth = 0 := by
  cases segment <;> rfl

theorem plain_toJson (segment : Segment) : segment.toJson.Plain := by
  cases segment <;> exact trivial

end Segment

namespace Path

def InWord (path : Path) : Prop :=
  ∀ segment ∈ path, segment.InWord

/-- The whole text is read as one value, and the value stands for the path. -/
def Decodes (text : String) (path : Path) : Prop :=
  ∃ json, Json.ofText (Bytes.ofString text) = .ok json ∧ ofJson json = .ok path

theorem ofJson_toJson {path : Path} (h : path.InWord) : ofJson path.toJson = .ok path := by
  rw [toJson, ofJson]
  induction path with
  | nil => rfl
  | cons segment path ih =>
    obtain ⟨hSegment, hPath⟩ := List.forall_mem_cons.mp h
    rw [List.map_cons, List.mapM_cons, Segment.ofJson_toJson hSegment, ih hPath]
    rfl

theorem toJson_injective : Function.Injective toJson := by
  intro path other h
  exact List.map_injective_iff.mpr Segment.toJson_injective (Json.array.inj h)

theorem depth_toJson_le (path : Path) : path.toJson.depth ≤ 1 := by
  rw [toJson, Json.depth_array_le_iff, List.forall_mem_map]
  intro segment _
  exact Nat.le_of_eq segment.depth_toJson

theorem plain_toJson (path : Path) : path.toJson.Plain := by
  rw [toJson, Json.plain_array_iff, List.forall_mem_map]
  intro segment _
  exact segment.plain_toJson

theorem ofText_serialized (path : Path) : Json.ofText (Bytes.ofString path.serialized) = .ok path.toJson := by
  have hDepth : path.toJson.depth ≤ depthLimit := Nat.le_trans path.depth_toJson_le (by decide)
  rw [serialized, Json.ofString_compact]
  exact compactForm.ofText_text 0 hDepth path.plain_toJson

theorem serialized_injective : Function.Injective serialized := by
  intro path other h
  have hText := path.ofText_serialized
  rw [h, other.ofText_serialized] at hText
  exact toJson_injective (Except.ok.inj hText).symm

/-- A path is decoded from its serialized form, which no other path has, not even one with a key in
place of an index that the key spells. -/
theorem serialized_faithful :
    (∀ path, InWord path → Decodes (serialized path) path) ∧
    (∀ path other, serialized path = serialized other → path = other) ∧
    ∀ (front back : Path) (i : Nat),
      serialized (front ++ .index i :: back) ≠ serialized (front ++ .key (toString i) :: back) := by
  refine ⟨?_, fun _ _ h => serialized_injective h, ?_⟩
  · intro path h
    exact ⟨path.toJson, path.ofText_serialized, ofJson_toJson h⟩
  · intro front back i h
    have hTail := List.append_cancel_left (serialized_injective h)
    cases (List.cons.inj hTail).1

theorem inWord_escaped : InWord [.key "", .key "1\"\\\n\u00e9", .index 18446744073709551615] := by
  simp [InWord, Segment.InWord]

theorem serialized_faithful_escaped :
    Decodes (serialized [.key "", .key "1\"\\\n\u00e9", .index 18446744073709551615])
      [.key "", .key "1\"\\\n\u00e9", .index 18446744073709551615] :=
  serialized_faithful.1 _ inWord_escaped

end Path

end CircuitForm
