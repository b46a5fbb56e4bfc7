import CircuitForm.Input.Check
import CircuitForm.Proofs.Text.Blank
import CircuitForm.Proofs.Text.Casing

/-!
# Spellings of truth values

Where a boolean is declared, a literal may also be the number 0 or 1, spelled with that digit alone, or
one of four words between blanks, whose letters may be of either case.
-/

namespace CircuitForm

theorem le_foldl_digits (ds : List Digit) (n : Nat) :
    n ≤ ds.foldl (fun total d => total * 10 + d.val) n := by
  induction ds generalizing n with
  | nil => exact Nat.le_refl n
  | cons d ds ih =>
    have hNext := ih (n * 10 + d.val)
    rw [List.foldl_cons]
    omega

/-- There are no leading zeros, so a number below ten has one digit. -/
theorem value_eq_digit_iff {ds : WholeDigits} {k : Digit} : ds.val.value = k.val ↔ ds.val = ⟨k, []⟩ := by
  obtain ⟨⟨first, more⟩, hZero⟩ := ds
  rw [Digits.value, Digits.toList, List.foldl_cons, Nat.zero_mul, Nat.zero_add, Digits.mk.injEq]
  cases more with
  | nil => simp [Fin.ext_iff]
  | cons d rest =>
    refine iff_of_false ?_ fun hSame => List.cons_ne_nil d rest hSame.2
    have hFirst : first.val ≠ 0 := by
      intro hNone
      cases hZero hNone
    have hMore := le_foldl_digits rest (first.val * 10 + d.val)
    dsimp only
    rw [List.foldl_cons]
    omega

theorem natural?_eq_some_iff {n : Numeral} {k : Digit} : n.natural? = some k.val ↔ n.chars = [k.char] := by
  have hSign : '-' ≠ k.char := by revert k; decide
  have hChar : ∀ d : Digit, d.char = k.char ↔ d = k := by revert k; decide
  obtain ⟨negative, ds, fraction, exponent⟩ := n
  cases negative with
  | true => simp [Numeral.natural?, Numeral.chars, hSign]
  | false =>
    cases fraction with
    | some _ => simp [Numeral.natural?, Numeral.chars, Digits.chars, Digits.toList]
    | none =>
      cases exponent with
      | some _ => simp [Numeral.natural?, Numeral.chars, Digits.chars, Digits.toList]
      | none =>
        obtain ⟨⟨first, more⟩, hZero⟩ := ds
        have hValue : Digits.value ⟨first, more⟩ = k.val ↔ Digits.mk first more = ⟨k, []⟩ :=
          @value_eq_digit_iff ⟨⟨first, more⟩, hZero⟩ k
        simp [Numeral.natural?, Numeral.chars, Digits.chars, Digits.toList, hValue, hChar]

/-- The words for truth values. -/
def truthWords : List (String × Bool) :=
  [("true", true), ("1", true), ("false", false), ("0", false)]

/-- The literal is a spelling of the truth value. -/
inductive SpellsBoolean : Literal → Bool → Prop where
  | boolean (b : Bool) : SpellsBoolean (.boolean b) b
  | zero {n : Numeral} (h : n.chars = ['0']) : SpellsBoolean (.number n) false
  | one {n : Numeral} (h : n.chars = ['1']) : SpellsBoolean (.number n) true
  | word {s word : String} {body : List Char} {b : Bool} (hWord : (word, b) ∈ truthWords)
      (hBody : Text.Trimmed s.toList body) (hLetters : Text.SameLetters word.toList body) :
      SpellsBoolean (.string s) b

theorem booleanOfText?_eq_some_iff {s : String} {b : Bool} : Literal.booleanOfText? s = some b ↔
    ∃ word body, (word, b) ∈ truthWords ∧ Text.Trimmed s.toList body ∧ Text.SameLetters word.toList body := by
  have hSmall : ∀ entry ∈ truthWords, ∀ letter ∈ entry.1.toList, letter.toLower = letter := by
    have hAll : (truthWords.all fun entry => entry.1.toList.all fun letter => letter.toLower = letter) = true := by
      decide
    simpa only [List.all_eq_true, decide_eq_true_eq] using hAll
  constructor
  · intro h
    rw [Literal.booleanOfText?] at h
    have hBody := Text.trimmed_trimList s.toList
    have hSame : ∀ word, (word, b) ∈ truthWords →
        (Text.trimList s.toList).map Char.toLower = word.toList →
        ∃ word body, (word, b) ∈ truthWords ∧ Text.Trimmed s.toList body ∧ Text.SameLetters word.toList body :=
      fun word hWord hLetters => ⟨word, _, hWord, hBody, (Text.sameLetters_iff (hSmall _ hWord)).mpr hLetters⟩
    split at h
    · rename_i hTrue
      cases h
      exact hTrue.elim (hSame "true" (by decide)) (hSame "1" (by decide))
    · split at h
      · rename_i hFalse
        cases h
        exact hFalse.elim (hSame "false" (by decide)) (hSame "0" (by decide))
      · cases h
  · rintro ⟨word, body, hWord, hBody, hLetters⟩
    rw [Text.sameLetters_iff (hSmall _ hWord)] at hLetters
    rw [Literal.booleanOfText?, hBody.trimList_eq, hLetters]
    have hRead : ∀ entry ∈ truthWords,
        (if entry.1.toList = "true".toList ∨ entry.1.toList = ['1'] then some true
          else if entry.1.toList = "false".toList ∨ entry.1.toList = ['0'] then some false
          else none) = some entry.2 := by
      decide
    exact hRead _ hWord

theorem booleanOf?_eq_some_iff {literal : Literal} {b : Bool} :
    booleanOf? literal = some b ↔ SpellsBoolean literal b := by
  constructor
  · intro h
    cases literal with
    | boolean c =>
      cases h
      exact .boolean b
    | number n =>
      rw [booleanOf?] at h
      split at h
      · rename_i hNatural
        cases h
        exact .zero ((natural?_eq_some_iff (k := 0)).mp hNatural)
      · rename_i hNatural
        cases h
        exact .one ((natural?_eq_some_iff (k := 1)).mp hNatural)
      · cases h
    | string s =>
      obtain ⟨word, body, hWord, hBody, hLetters⟩ := booleanOfText?_eq_some_iff.mp h
      exact .word hWord hBody hLetters
    | array _ | object _ => cases h
  · intro h
    cases h with
    | boolean => rfl
    | zero hZero =>
      have hNatural := (natural?_eq_some_iff (k := 0)).mpr hZero
      rw [booleanOf?, hNatural]
      rfl
    | one hOne =>
      have hNatural := (natural?_eq_some_iff (k := 1)).mpr hOne
      rw [booleanOf?, hNatural]
      rfl
    | word hWord hBody hLetters => exact booleanOfText?_eq_some_iff.mpr ⟨_, _, hWord, hBody, hLetters⟩

end CircuitForm
