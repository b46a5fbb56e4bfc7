import CircuitForm.Proofs.Path.Grammar

/-!
# Paths as they are shown

What is shown of a path is one of its spellings, if its keys are names and its indexes fit into a
word; no other path has a spelling at all. So showing what has been read gives each path one text.
-/

namespace CircuitForm

/-- A key that is a name, or an index of one word. -/
def Segment.Spellable : Segment → Prop
  | .index i => i < Word.bound64
  | .key name => Path.IsName name.toList

instance : (segment : Segment) → Decidable segment.Spellable
  | .index i => inferInstanceAs (Decidable (i < Word.bound64))
  | .key name => inferInstanceAs (Decidable (Path.IsName name.toList))

namespace Path

def Spellable (path : Path) : Prop :=
  ∀ segment ∈ path, segment.Spellable

instance (path : Path) : Decidable (Spellable path) :=
  inferInstanceAs (Decidable (∀ segment ∈ path, segment.Spellable))

variable {path : Path}

theorem numberOf_eq_ofDigitChars (digits : List Char) : numberOf digits = Nat.ofDigitChars 10 digits 0 := by
  induction digits using List.reverseRecOn with
  | nil => rfl
  | append_singleton front c ih =>
    rw [numberOf_append_singleton, ih, Nat.ofDigitChars_append, Nat.ofDigitChars_cons, Nat.mul_comm]
    rfl

/-- A number is shown by its decimal digits, without leading zeros. -/
theorem spellsIndex_toString {i : Nat} (h : i < Word.bound64) : SpellsIndex (toString i).toList i := by
  have hDigits : (toString i).toList = Nat.toDigits 10 i := Nat.toList_repr
  rw [hDigits]
  refine ⟨Nat.toDigits_ne_nil, ?_, ?_, h⟩
  · intro c hChar
    exact isDigit_iff.mp (Nat.isDigit_of_mem_toDigits (by decide) (Nat.le_refl _) hChar)
  · rw [numberOf_eq_ofDigitChars, Nat.ofDigitChars_ten_toDigits]

theorem spellsFirst_key {name : String} (h : IsName name.toList) : SpellsFirst name.toList (.key name) := by
  have hFirst := SpellsFirst.name h
  rwa [String.ofList_toList] at hFirst

theorem spellsRest_laterChars (h : Spellable path) : SpellsRest (laterChars path) path := by
  induction path with
  | nil => exact .nil
  | cons segment path ih =>
    obtain ⟨hSegment, hPath⟩ := List.forall_mem_cons.mp h
    cases segment with
    | index i =>
      have hText : laterChars (.index i :: path) = '[' :: ((toString i).toList ++ [']']) ++ laterChars path := by
        simp [laterChars]
      rw [hText]
      exact .cons (.bracketed (spellsIndex_toString hSegment)) (ih hPath)
    | key name => exact .cons (.pointed (spellsFirst_key hSegment)) (ih hPath)

theorem spells_chars (h : Spellable path) : Spells path.chars path := by
  cases path with
  | nil => exact .root
  | cons segment path =>
    obtain ⟨hSegment, hPath⟩ := List.forall_mem_cons.mp h
    cases segment with
    | index i =>
      have hText : chars (.index i :: path) = '[' :: ((toString i).toList ++ [']']) ++ laterChars path := by
        simp [chars, laterChars]
      rw [hText]
      exact .segments (.bracketed (spellsIndex_toString hSegment)) (spellsRest_laterChars hPath)
    | key name => exact .segments (spellsFirst_key hSegment) (spellsRest_laterChars hPath)

theorem SpellsFirst.spellable {text : List Char} {segment : Segment} (h : SpellsFirst text segment) :
    segment.Spellable := by
  cases h with
  | name hName =>
    rw [Segment.Spellable, String.toList_ofList]
    exact hName
  | index hIndex => exact hIndex.lt
  | bracketed hIndex => exact hIndex.lt

theorem SpellsRest.spellable {text : List Char} (h : SpellsRest text path) : Spellable path := by
  induction h with
  | nil => exact fun _ hSegment => nomatch hSegment
  | cons hNext _ ih =>
    refine List.forall_mem_cons.mpr ⟨?_, ih⟩
    cases hNext with
    | pointed hFirst => exact hFirst.spellable
    | bracketed hIndex => exact hIndex.lt

theorem spellable_iff_exists_spells : Spellable path ↔ ∃ text, Spells text path := by
  constructor
  · exact fun h => ⟨_, spells_chars h⟩
  · rintro ⟨text, h⟩
    cases h with
    | root => exact fun _ hSegment => nomatch hSegment
    | segments hFirst hRest => exact List.forall_mem_cons.mpr ⟨hFirst.spellable, hRest.spellable⟩

theorem parse_of_spellable (h : Spellable path) : parse path.display = .ok path :=
  parse_of_spells (spells_chars h)

theorem spellable_of_parse {input : String} (h : parse input = .ok path) : Spellable path := by
  obtain ⟨text, -, hText⟩ := parse_eq_ok_iff.mp h
  exact spellable_iff_exists_spells.mpr ⟨text, hText⟩

theorem eq_of_display_eq {other : Path} (h : Spellable path) (hOther : Spellable other)
    (hSame : path.display = other.display) : path = other := by
  have hParse := parse_of_spellable h
  rw [hSame, parse_of_spellable hOther] at hParse
  exact (Except.ok.inj hParse).symm

/-- Each spellable path has one text that shows it. Whatever is read has such a text, which is the same
for two inputs exactly when they name one path. -/
theorem display_normalForm :
    (∀ path, Spellable path → parse path.display = .ok path) ∧
    (∀ path other, Spellable path → Spellable other → path.display = other.display → path = other) ∧
    (∀ input path, parse input = .ok path → Spellable path ∧ parse path.display = .ok path) ∧
    ∀ input path again other, parse input = .ok path → parse again = .ok other →
      (path.display = other.display ↔ path = other) := by
  refine ⟨fun _ => parse_of_spellable, fun _ _ => eq_of_display_eq, ?_, ?_⟩
  · intro input path h
    exact ⟨spellable_of_parse h, parse_of_spellable (spellable_of_parse h)⟩
  · intro input path again other h hOther
    exact ⟨eq_of_display_eq (spellable_of_parse h) (spellable_of_parse hOther), congrArg display⟩

theorem spellable_tag : Spellable [.index 1, .key "tag"] := by decide

theorem display_normalForm_tag :
    parse (display [.index 1, .key "tag"]) = .ok [.index 1, .key "tag"] ∧
    (Spellable [.index 1, .key "tag"] ∧ parse (display [.index 1, .key "tag"]) = .ok [.index 1, .key "tag"]) ∧
    (display [.index 1, .key "tag"] = display [.index 1, .key "tag"] ↔
      [Segment.index 1, .key "tag"] = [.index 1, .key "tag"]) := by
  have hPointed : parse "1.tag" = .ok [.index 1, .key "tag"] := rfl
  have hBracketed : parse " [01].tag" = .ok [.index 1, .key "tag"] := rfl
  exact ⟨display_normalForm.1 _ spellable_tag, display_normalForm.2.2.1 _ _ hPointed,
    display_normalForm.2.2.2 _ _ _ _ hPointed hBracketed⟩

end Path

end CircuitForm
