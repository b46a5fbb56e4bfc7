import Mathlib.Data.List.Induction
import Mathlib.Data.Nat.Digits.Defs
import CircuitForm.Path.Parser
import CircuitForm.Proofs.Outcome
import CircuitForm.Proofs.Text.Blank

/-!
# The grammar of paths

A path is spelled as a first segment and the segments that go on from it. A point sets off whatever
may come first, and an index in brackets goes on without one. The parser takes the longest name or
row of digits at each place, which loses nothing, since neither a point nor a bracket belongs to one.
-/

namespace CircuitForm.Path

def IsNameStart (c : Char) : Prop :=
  ('A' ≤ c ∧ c ≤ 'Z') ∨ ('a' ≤ c ∧ c ≤ 'z') ∨ c = '_'

def IsDigit (c : Char) : Prop :=
  '0' ≤ c ∧ c ≤ '9'

instance (c : Char) : Decidable (IsNameStart c) :=
  inferInstanceAs (Decidable (_ ∨ _))

instance (c : Char) : Decidable (IsDigit c) :=
  inferInstanceAs (Decidable (_ ∧ _))

/-- A name, `[A-Za-z_][A-Za-z0-9_]*`. -/
def IsName : List Char → Prop
  | [] => False
  | c :: more => IsNameStart c ∧ ∀ d ∈ more, IsNameStart d ∨ IsDigit d

instance decidableIsName : (cs : List Char) → Decidable (IsName cs)
  | [] => isFalse fun h => h
  | c :: more => @instDecidableAnd (IsNameStart c) _ _
    (List.decidableBAll (fun d => IsNameStart d ∨ IsDigit d) more)

/-- The number that a row of digits denotes, the last one counting least. -/
def numberOf (digits : List Char) : Nat :=
  Nat.ofDigits 10 (digits.reverse.map fun c => c.toNat - '0'.toNat)

/-- ASCII digits, with or without leading zeros, that denote a number of one word. -/
structure SpellsIndex (digits : List Char) (i : Nat) : Prop where
  nonempty : digits ≠ []
  isDigit : ∀ c ∈ digits, IsDigit c
  denotes : numberOf digits = i
  lt : i < Word.bound64

inductive SpellsFirst : List Char → Segment → Prop where
  | name {cs : List Char} (h : IsName cs) : SpellsFirst cs (.key (String.ofList cs))
  | index {digits : List Char} {i : Nat} (h : SpellsIndex digits i) : SpellsFirst digits (.index i)
  | bracketed {digits : List Char} {i : Nat} (h : SpellsIndex digits i) :
      SpellsFirst ('[' :: (digits ++ [']'])) (.index i)

inductive SpellsNext : List Char → Segment → Prop where
  | pointed {cs : List Char} {segment : Segment} (h : SpellsFirst cs segment) :
      SpellsNext ('.' :: cs) segment
  | bracketed {digits : List Char} {i : Nat} (h : SpellsIndex digits i) :
      SpellsNext ('[' :: (digits ++ [']'])) (.index i)

inductive SpellsRest : List Char → Path → Prop where
  | nil : SpellsRest [] []
  | cons {cs rest : List Char} {segment : Segment} {path : Path} (h : SpellsNext cs segment)
      (hRest : SpellsRest rest path) : SpellsRest (cs ++ rest) (segment :: path)

inductive Spells : List Char → Path → Prop where
  | root : Spells [] []
  | segments {cs rest : List Char} {segment : Segment} {path : Path} (h : SpellsFirst cs segment)
      (hRest : SpellsRest rest path) : Spells (cs ++ rest) (segment :: path)

theorem isNameStart_iff {c : Char} : isNameStart c = true ↔ IsNameStart c := by
  have hUpper : c.isUpper = true ↔ 'A' ≤ c ∧ c ≤ 'Z' := decide_eq_true_iff
  have hLower : c.isLower = true ↔ 'a' ≤ c ∧ c ≤ 'z' :=
    Bool.and_eq_true_iff.trans (and_congr decide_eq_true_iff decide_eq_true_iff)
  have hAlpha : c.isAlpha = (c.isUpper || c.isLower) := rfl
  rw [isNameStart, IsNameStart, hAlpha, Bool.or_eq_true, Bool.or_eq_true, hUpper, hLower, beq_iff_eq, or_assoc]

theorem isDigit_iff {c : Char} : c.isDigit = true ↔ IsDigit c := by
  simp [IsDigit, Char.isDigit, Char.le_def]

theorem isNameChar_iff {c : Char} : isNameChar c = true ↔ IsNameStart c ∨ IsDigit c := by
  rw [← isNameStart_iff, ← isDigit_iff, isNameChar, isNameStart, Char.isAlphanum]
  cases c.isAlpha <;> cases c.isDigit <;> simp

theorem numberOf_append_singleton (front : List Char) (c : Char) :
    numberOf (front ++ [c]) = numberOf front * 10 + (c.toNat - '0'.toNat) := by
  simp [numberOf, Nat.ofDigits_cons, Nat.add_comm, Nat.mul_comm]

theorem naturalOfDigits?_eq_some_iff {digits : List Char} {n : Nat} :
    Text.naturalOfDigits? digits = some n ↔ (∀ c ∈ digits, IsDigit c) ∧ numberOf digits = n := by
  induction digits using List.reverseRecOn generalizing n with
  | nil => simp [Text.naturalOfDigits?, numberOf]
  | append_singleton front c ih =>
    have hRead : Text.naturalOfDigits? (front ++ [c]) =
        (Text.naturalOfDigits? front).bind fun value =>
          (Text.digitValue? c).map (value * 10 + ·) := by
      simp [Text.naturalOfDigits?, List.foldlM_append]
    rw [hRead, numberOf_append_singleton, List.forall_mem_append, List.forall_mem_singleton, ← isDigit_iff,
      Text.digitValue?]
    simp only [Option.bind_eq_some_iff, ih]
    by_cases hDigit : c.isDigit = true
    · simp [hDigit]
    · simp [hDigit]

/-- A row of digits of any script is a number only if all of them are ASCII digits. -/
theorem indexOf_eq_ok_iff {digits : List Char} (hDigits : digits ≠ []) {segment : Segment} :
    indexOf digits = .ok segment ↔ ∃ i, SpellsIndex digits i ∧ segment = .index i := by
  rw [indexOf]
  cases hRead : Text.naturalOfDigits? digits with
  | none =>
    refine iff_of_false nofun ?_
    rintro ⟨i, hIndex, -⟩
    rw [naturalOfDigits?_eq_some_iff.mpr ⟨hIndex.isDigit, hIndex.denotes⟩] at hRead
    cases hRead
  | some n =>
    obtain ⟨hAll, rfl⟩ := naturalOfDigits?_eq_some_iff.mp hRead
    dsimp only
    constructor
    · intro h
      split at h
      · rename_i hBound
        cases h
        exact ⟨_, ⟨hDigits, hAll, rfl, hBound⟩, rfl⟩
      · cases h
    · rintro ⟨i, hIndex, rfl⟩
      obtain rfl := hIndex.denotes
      rw [if_pos hIndex.lt]

theorem isName_takeWhile {c : Char} (h : isNameStart c = true) (text : List Char) :
    IsName (c :: text.takeWhile isNameChar) := by
  refine ⟨isNameStart_iff.mp h, ?_⟩
  intro d hChar
  exact isNameChar_iff.mp (List.mem_takeWhile_imp hChar)

theorem spellsFirst_of_segment {text rest : List Char} {found : Segment}
    (h : segment text = .ok (found, rest)) : ∃ front, text = front ++ rest ∧ SpellsFirst front found := by
  cases text with
  | nil => cases h
  | cons c text =>
    rw [segment] at h
    split at h
    · rename_i hStart
      cases h
      refine ⟨c :: text.takeWhile isNameChar, ?_, .name (isName_takeWhile hStart text)⟩
      rw [List.cons_append, List.takeWhile_append_dropWhile]
    split at h
    · obtain ⟨index, hIndex, hSame⟩ := map_eq_ok_iff.mp h
      cases hSame
      obtain ⟨i, hSpelled, rfl⟩ := (indexOf_eq_ok_iff (List.cons_ne_nil c _)).mp hIndex
      refine ⟨c :: text.takeWhile Text.isDecimalDigit, ?_, .index hSpelled⟩
      rw [List.cons_append, List.takeWhile_append_dropWhile]
    split at h
    · rename_i hOpen
      subst hOpen
      split at h
      · rename_i d digits unread hDigits hBehind
        obtain ⟨index, hIndex, hSame⟩ := map_eq_ok_iff.mp h
        cases hSame
        obtain ⟨i, hSpelled, rfl⟩ := (indexOf_eq_ok_iff (List.cons_ne_nil d digits)).mp hIndex
        refine ⟨_, ?_, .bracketed hSpelled⟩
        rw [← List.takeWhile_append_dropWhile (p := Text.isDecimalDigit) (l := text), hDigits, hBehind]
        simp
      · cases h
    · cases h

theorem isNameStart_of_isDigit {c : Char} (h : IsDigit c) : isNameStart c = false := by
  rw [Bool.eq_false_iff, ne_eq, isNameStart_iff]
  intro hStart
  obtain ⟨hLow, hHigh⟩ := h
  rw [Char.le_def, UInt32.le_iff_toNat_le] at hLow hHigh
  obtain ⟨hLower, -⟩ | ⟨hLower, -⟩ | rfl := hStart
  · rw [Char.le_def, UInt32.le_iff_toNat_le] at hLower
    exact absurd (Nat.le_trans hLower hHigh) (by decide)
  · rw [Char.le_def, UInt32.le_iff_toNat_le] at hLower
    exact absurd (Nat.le_trans hLower hHigh) (by decide)
  · exact absurd hHigh (by decide)

theorem isDecimalDigit_of_isDigit {c : Char} (h : IsDigit c) : Text.isDecimalDigit c = true :=
  Text.isDecimalDigit_of_isDigit (isDigit_iff.mpr h)

/-- Neither a point nor a bracket goes on with a name or with digits. -/
theorem segment_append {front rest : List Char} {found : Segment} (h : SpellsFirst front found)
    (hRest : ∀ c ∈ rest.head?, c = '.' ∨ c = '[') : segment (front ++ rest) = .ok (found, rest) := by
  have hNoName : ∀ c ∈ rest.head?, isNameChar c = false := by
    intro c hChar
    obtain rfl | rfl := hRest c hChar <;> decide
  have hNoDigit : ∀ c ∈ rest.head?, Text.isDecimalDigit c = false := by
    intro c hChar
    obtain rfl | rfl := hRest c hChar <;> decide
  cases h with
  | name hName =>
    cases front with
    | nil => cases hName
    | cons c more =>
      obtain ⟨hStart, hMore⟩ := hName
      have hChars : ∀ d ∈ more, isNameChar d = true := fun d hChar => isNameChar_iff.mpr (hMore d hChar)
      rw [List.cons_append, segment, if_pos (isNameStart_iff.mpr hStart),
        Text.takeWhile_append hChars hNoName, Text.dropWhile_append hChars hNoName]
  | @index _ i hIndex =>
    have hRead := (indexOf_eq_ok_iff hIndex.nonempty).mpr ⟨i, hIndex, rfl⟩
    have hDigits := fun c hChar => isDecimalDigit_of_isDigit (hIndex.isDigit c hChar)
    cases front with
    | nil => exact absurd rfl hIndex.nonempty
    | cons c more =>
      have hMore : ∀ d ∈ more, Text.isDecimalDigit d = true :=
        fun d hChar => hDigits d (List.mem_cons_of_mem c hChar)
      have hStart : ¬ isNameStart c = true := by
        rw [isNameStart_of_isDigit (hIndex.isDigit c List.mem_cons_self)]
        exact Bool.false_ne_true
      rw [List.cons_append, segment, if_neg hStart, if_pos (hDigits c List.mem_cons_self),
        Text.takeWhile_append hMore hNoDigit, Text.dropWhile_append hMore hNoDigit, hRead]
      rfl
  | @bracketed digits i hIndex =>
    have hRead := (indexOf_eq_ok_iff hIndex.nonempty).mpr ⟨i, hIndex, rfl⟩
    have hDigits := fun c hChar => isDecimalDigit_of_isDigit (hIndex.isDigit c hChar)
    have hClose : ∀ c ∈ (']' :: rest).head?, Text.isDecimalDigit c = false := by
      rintro c ⟨⟩
      decide
    have hText : '[' :: (digits ++ [']']) ++ rest = '[' :: (digits ++ ']' :: rest) := by simp
    rw [hText, segment, if_neg (by decide), if_neg (by decide), if_pos rfl,
      Text.takeWhile_append hDigits hClose, Text.dropWhile_append hDigits hClose]
    cases digits with
    | nil => exact absurd rfl hIndex.nonempty
    | cons c more =>
      change (indexOf (c :: more)).map (fun segment => (segment, rest)) = _
      rw [hRead]
      rfl

theorem SpellsFirst.ne_nil {cs : List Char} {segment : Segment} (h : SpellsFirst cs segment) : cs ≠ [] := by
  cases h with
  | name hName =>
    rintro rfl
    exact hName
  | index hIndex => exact hIndex.nonempty
  | bracketed _ => exact List.cons_ne_nil _ _

theorem SpellsFirst.next_of_bracket {cs : List Char} {segment : Segment}
    (h : SpellsFirst ('[' :: cs) segment) : SpellsNext ('[' :: cs) segment := by
  cases h with
  | name hName => exact absurd (isNameStart_iff.mpr hName.1) (by decide)
  | index hIndex => exact absurd (isDigit_iff.mpr (hIndex.isDigit '[' List.mem_cons_self)) (by decide)
  | bracketed hIndex => exact .bracketed hIndex

theorem Spells.rest_of_point {text : List Char} {path : Path} (h : Spells text path) (hText : text ≠ []) :
    SpellsRest ('.' :: text) path := by
  cases h with
  | root => exact absurd rfl hText
  | segments hFirst hRest => exact .cons (.pointed hFirst) hRest

theorem Spells.rest_of_bracket {text : List Char} {path : Path} (h : Spells ('[' :: text) path) :
    SpellsRest ('[' :: text) path := by
  generalize hText : '[' :: text = whole at h
  cases h with
  | root => cases hText
  | @segments cs _ _ _ hFirst hRest =>
    cases cs with
    | nil => exact absurd rfl hFirst.ne_nil
    | cons c cs =>
      obtain ⟨rfl, -⟩ := List.cons.inj hText
      exact .cons hFirst.next_of_bracket hRest

theorem SpellsRest.head? {rest : List Char} {path : Path} (h : SpellsRest rest path) :
    ∀ c ∈ rest.head?, c = '.' ∨ c = '[' := by
  intro c hChar
  cases h with
  | nil => cases hChar
  | cons hNext _ =>
    cases hNext with
    | pointed _ =>
      cases hChar
      exact .inl rfl
    | bracketed _ =>
      cases hChar
      exact .inr rfl

theorem spells_of_segments {fuel : Nat} {text : List Char} {path : Path} (h : segments fuel text = .ok path) :
    Spells text path := by
  induction fuel generalizing text path with
  | zero =>
    cases text with
    | nil =>
      cases h
      exact .root
    | cons _ _ => cases h
  | succ fuel ih =>
    cases text with
    | nil =>
      cases h
      exact .root
    | cons c text =>
      rw [segments] at h
      obtain ⟨⟨first, rest⟩, hSegment, hMore⟩ := bind_eq_ok_iff.mp h
      obtain ⟨front, hText, hFirst⟩ := spellsFirst_of_segment hSegment
      rw [hText]
      dsimp only at hMore
      split at hMore
      · cases hMore
        exact .segments hFirst .nil
      · cases hMore
      · obtain ⟨path, hPath, hSame⟩ := bind_eq_ok_iff.mp hMore
        cases hSame
        exact .segments hFirst ((ih hPath).rest_of_point (List.cons_ne_nil _ _))
      · obtain ⟨path, hPath, hSame⟩ := bind_eq_ok_iff.mp hMore
        cases hSame
        exact .segments hFirst (ih hPath).rest_of_bracket
      · cases hMore

/-- Each segment takes a character at least, so there is fuel for all of them. -/
theorem segments_of_spells {cs rest : List Char} {first : Segment} {path : Path} (h : SpellsFirst cs first)
    (hRest : SpellsRest rest path) {fuel : Nat} (hFuel : (cs ++ rest).length ≤ fuel) :
    segments fuel (cs ++ rest) = .ok (first :: path) := by
  induction hRest generalizing cs first fuel with
  | nil =>
    have hSegment := segment_append h SpellsRest.nil.head?
    obtain ⟨c, more, rfl⟩ := List.exists_cons_of_ne_nil h.ne_nil
    cases fuel with
    | zero => cases hFuel
    | succ fuel =>
      rw [List.cons_append] at hSegment ⊢
      rw [segments, hSegment]
      rfl
  | @cons next rest second path hNext hRest ih =>
    have hSegment := segment_append h (SpellsRest.cons hNext hRest).head?
    obtain ⟨c, more, rfl⟩ := List.exists_cons_of_ne_nil h.ne_nil
    cases fuel with
    | zero => cases hFuel
    | succ fuel =>
      rw [List.cons_append] at hSegment ⊢
      rw [segments, hSegment, ok_bind]
      cases hNext with
      | @pointed cs _ hSecond =>
        obtain ⟨d, others, rfl⟩ := List.exists_cons_of_ne_nil hSecond.ne_nil
        have hMore : segments fuel (d :: others ++ rest) = .ok (second :: path) := by
          apply ih hSecond
          simp only [List.length_append, List.length_cons] at hFuel ⊢
          omega
        change (segments fuel (d :: others ++ rest) >>= fun path => .ok (first :: path)) = _
        rw [hMore]
        rfl
      | @bracketed digits i hIndex =>
        have hMore : segments fuel ('[' :: (digits ++ [']']) ++ rest) = .ok (.index i :: path) := by
          apply ih (.bracketed hIndex)
          simp only [List.length_append, List.length_cons] at hFuel ⊢
          omega
        change (segments fuel ('[' :: (digits ++ [']']) ++ rest) >>= fun path => .ok (first :: path)) = _
        rw [hMore]
        rfl

theorem parseChars_eq_ok_iff {text : List Char} {path : Path} :
    parseChars text = .ok path ↔ Spells text path := by
  constructor
  · exact spells_of_segments
  · intro h
    cases h with
    | root => rfl
    | segments hFirst hRest => exact segments_of_spells hFirst hRest (Nat.le_refl _)

theorem SpellsRest.append {rest next : List Char} {path : Path} {segment : Segment} (h : SpellsRest rest path)
    (hNext : SpellsNext next segment) : SpellsRest (rest ++ next) (path.child segment) := by
  induction h with
  | nil =>
    rw [List.nil_append, ← List.append_nil next]
    exact .cons hNext .nil
  | cons hFirst _ ih =>
    rw [List.append_assoc]
    exact .cons hFirst ih

theorem Spells.append {text next : List Char} {path : Path} {segment : Segment} (h : Spells text path)
    (hPath : path ≠ []) (hNext : SpellsNext next segment) : Spells (text ++ next) (path.child segment) := by
  cases h with
  | root => exact absurd rfl hPath
  | segments hFirst hRest =>
    rw [List.append_assoc]
    exact .segments hFirst (hRest.append hNext)

/-- A character of ASCII that leaves a mark, as all those of a spelling do. -/
def IsGraphic (c : Char) : Prop :=
  33 ≤ c.toNat ∧ c.toNat ≤ 126

theorem isGraphic_of_le {c first last : Char} (hFirst : first ≤ c) (hLast : c ≤ last)
    (h : 33 ≤ first.toNat ∧ last.toNat ≤ 126) : IsGraphic c := by
  rw [Char.le_def, UInt32.le_iff_toNat_le] at hFirst hLast
  exact ⟨Nat.le_trans h.1 hFirst, Nat.le_trans hLast h.2⟩

theorem IsDigit.isGraphic {c : Char} (h : IsDigit c) : IsGraphic c :=
  isGraphic_of_le h.1 h.2 (by decide)

theorem IsNameStart.isGraphic {c : Char} (h : IsNameStart c) : IsGraphic c := by
  obtain ⟨hFirst, hLast⟩ | ⟨hFirst, hLast⟩ | rfl := h
  · exact isGraphic_of_le hFirst hLast (by decide)
  · exact isGraphic_of_le hFirst hLast (by decide)
  · exact ⟨by decide, by decide⟩

theorem isGraphic_bracketed {digits : List Char} {i : Nat} (h : SpellsIndex digits i) :
    ∀ c ∈ '[' :: (digits ++ [']']), IsGraphic c := by
  intro c hChar
  simp only [List.mem_cons, List.mem_append, List.not_mem_nil, or_false] at hChar
  obtain rfl | hDigit | rfl := hChar
  · exact ⟨by decide, by decide⟩
  · exact (h.isDigit c hDigit).isGraphic
  · exact ⟨by decide, by decide⟩

theorem SpellsFirst.isGraphic {cs : List Char} {segment : Segment} (h : SpellsFirst cs segment) :
    ∀ c ∈ cs, IsGraphic c := by
  intro c hChar
  cases h with
  | name hName =>
    cases cs with
    | nil => cases hChar
    | cons first more =>
      obtain rfl | hMore := List.mem_cons.mp hChar
      · exact hName.1.isGraphic
      · exact (hName.2 c hMore).elim IsNameStart.isGraphic IsDigit.isGraphic
  | index hIndex => exact (hIndex.isDigit c hChar).isGraphic
  | bracketed hIndex => exact isGraphic_bracketed hIndex c hChar

theorem SpellsRest.isGraphic {rest : List Char} {path : Path} (h : SpellsRest rest path) :
    ∀ c ∈ rest, IsGraphic c := by
  induction h with
  | nil => exact fun _ hChar => nomatch hChar
  | cons hNext _ ih =>
    intro c hChar
    obtain hHere | hBehind := List.mem_append.mp hChar
    · cases hNext with
      | pointed hFirst =>
        obtain rfl | hMore := List.mem_cons.mp hHere
        · exact ⟨by decide, by decide⟩
        · exact hFirst.isGraphic c hMore
      | bracketed hIndex => exact isGraphic_bracketed hIndex c hHere
    · exact ih c hBehind

theorem Spells.isGraphic {text : List Char} {path : Path} (h : Spells text path) : ∀ c ∈ text, IsGraphic c := by
  intro c hChar
  cases h with
  | root => cases hChar
  | segments hFirst hRest => exact (List.mem_append.mp hChar).elim (hFirst.isGraphic c) (hRest.isGraphic c)

theorem parse_eq_ok_iff {input : String} {path : Path} :
    parse input = .ok path ↔ ∃ text, Text.Trimmed input.toList text ∧ Spells text path := by
  rw [parse, mapError_eq_ok_iff, parseChars_eq_ok_iff]
  constructor
  · intro h
    exact ⟨_, Text.trimmed_trimList _, h⟩
  · rintro ⟨text, hTrimmed, h⟩
    rwa [hTrimmed.trimList_eq]

theorem parse_of_spells {text : List Char} {path : Path} (h : Spells text path) :
    parse (String.ofList text) = .ok path := by
  have hPlain : ∀ c ∈ text, Text.isBlank c = false := by
    intro c hChar
    exact Text.isBlank_of_graphic (h.isGraphic c hChar).1 (h.isGraphic c hChar).2
  have hTrimmed : Text.trimList text = text := by
    apply Text.trimList_eq_self
    · intro c hChar
      exact hPlain c (List.mem_of_mem_head? hChar)
    · intro c hChar
      exact hPlain c (List.mem_of_mem_getLast? hChar)
  rw [parse, mapError_eq_ok_iff, parseChars_eq_ok_iff, String.toList_ofList, hTrimmed]
  exact h

theorem parse_eq_error {input : String} {error : PathError} (h : parse input = .error error) :
    error.input = input := by
  rw [parse] at h
  cases hText : parseChars (Text.trimList input.toList) with
  | ok path =>
    rw [hText] at h
    cases h
  | error fault =>
    rw [hText] at h
    cases h
    rfl

/-- What is read is what is spelled, apart from blanks at both ends, and all else is refused with the
text as it came. An index is the same step behind a point, in brackets, or both. -/
theorem parse_grammar :
    (∀ input path, parse input = .ok path ↔ ∃ text, Text.Trimmed input.toList text ∧ Spells text path) ∧
    (∀ input, (∀ text path, Text.Trimmed input.toList text → ¬ Spells text path) →
      ∃ fault, parse input = .error ⟨input, fault⟩) ∧
    ∀ text path digits i, Spells text path → path ≠ [] → SpellsIndex digits i →
      parse (String.ofList (text ++ '.' :: digits)) = .ok (path.child (.index i)) ∧
      parse (String.ofList (text ++ '[' :: (digits ++ [']']))) = .ok (path.child (.index i)) ∧
      parse (String.ofList (text ++ '.' :: '[' :: (digits ++ [']']))) = .ok (path.child (.index i)) := by
  refine ⟨fun input path => parse_eq_ok_iff, ?_, ?_⟩
  · intro input hNone
    cases hParse : parse input with
    | ok path =>
      obtain ⟨text, hTrimmed, hSpelled⟩ := parse_eq_ok_iff.mp hParse
      exact absurd hSpelled (hNone text path hTrimmed)
    | error error => exact ⟨error.fault, by rw [← parse_eq_error hParse]⟩
  · intro text path digits i hText hPath hIndex
    refine ⟨?_, ?_, ?_⟩
    · exact parse_of_spells (hText.append hPath (.pointed (.index hIndex)))
    · exact parse_of_spells (hText.append hPath (.bracketed hIndex))
    · exact parse_of_spells (hText.append hPath (.pointed (.bracketed hIndex)))

theorem spells_sample : Spells ['a'] [.key "a"] := by
  have hName : IsName ['a'] := by decide
  exact .segments (.name hName) .nil

theorem spellsIndex_zero : SpellsIndex ['0', '0'] 0 :=
  ⟨by decide, by simp [IsDigit], rfl, by decide⟩

theorem parse_grammar_sample : parse "a.00" = .ok [.key "a", .index 0] ∧
    parse "a[00]" = .ok [.key "a", .index 0] ∧ parse "a.[00]" = .ok [.key "a", .index 0] :=
  parse_grammar.2.2 ['a'] [.key "a"] ['0', '0'] 0 spells_sample (List.cons_ne_nil _ _) spellsIndex_zero

end CircuitForm.Path
