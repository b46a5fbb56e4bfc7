import Mathlib.Data.List.Forall2

/-!
# Letters of either case

Only the letters of ASCII have two cases here. A word whose letters are small is what a text becomes in
small letters exactly if each letter of the text is the one of the word, small or capital.
-/

namespace CircuitForm.Text

theorem toNat_toLower (c : Char) :
    c.toLower.toNat = if 65 ≤ c.toNat ∧ c.toNat ≤ 90 then c.toNat + 32 else c.toNat := by
  delta Char.toLower
  split
  · rename_i h
    have hRange : 65 ≤ c.toNat ∧ c.toNat ≤ 90 := h
    have hShift : (c.val + 32).toNat = c.toNat + 32 := by
      rw [UInt32.toNat_add, Char.toNat_val]
      exact Nat.mod_eq_of_lt (by simp only [UInt32.reduceToNat]; omega)
    rw [if_pos hRange, ← hShift]
    rfl
  · rename_i h
    exact (if_neg h).symm

theorem toNat_toUpper (c : Char) :
    c.toUpper.toNat = if 97 ≤ c.toNat ∧ c.toNat ≤ 122 then c.toNat - 32 else c.toNat := by
  delta Char.toUpper
  split
  · rename_i h
    have hRange : 97 ≤ c.toNat ∧ c.toNat ≤ 122 := h
    have hShift : (c.val + ('A'.val - 'a'.val)).toNat = c.toNat - 32 := by
      have hDifference : ('A'.val - 'a'.val).toNat = 2 ^ 32 - 32 := rfl
      rw [UInt32.toNat_add, Char.toNat_val, hDifference]
      omega
    rw [if_pos hRange, ← hShift]
    rfl
  · rename_i h
    exact (if_neg h).symm

theorem toLower_eq_iff {c letter : Char} (hLetter : letter.toLower = letter) :
    c.toLower = letter ↔ c = letter ∨ c = letter.toUpper := by
  rw [← Char.toNat_inj, toNat_toLower] at hLetter ⊢
  rw [← Char.toNat_inj, ← Char.toNat_inj, toNat_toUpper]
  grind

/-- The letters of a word, each of either case. -/
def SameLetters (word cs : List Char) : Prop :=
  List.Forall₂ (fun letter c => c = letter ∨ c = letter.toUpper) word cs

theorem sameLetters_iff {word cs : List Char} (hWord : ∀ letter ∈ word, letter.toLower = letter) :
    SameLetters word cs ↔ cs.map Char.toLower = word := by
  induction word generalizing cs with
  | nil => rw [SameLetters, List.forall₂_nil_left_iff, List.map_eq_nil_iff]
  | cons letter rest ih =>
    obtain ⟨hLetter, hRest⟩ := List.forall_mem_cons.mp hWord
    cases cs with
    | nil => exact iff_of_false nofun nofun
    | cons c more =>
      rw [SameLetters, List.forall₂_cons, ← toLower_eq_iff hLetter, List.map_cons, List.cons.injEq, ← ih hRest]
      rfl

end CircuitForm.Text
