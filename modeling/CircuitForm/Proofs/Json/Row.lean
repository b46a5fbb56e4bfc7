import CircuitForm.Proofs.Json.Token

/-!
# Rows read back

A row is what stands between two brackets: elements or members with commas between them, each
behind the same blanks. If each is read back by itself, whatever comes behind it, then so
is the row, up to the closing bracket.
-/

namespace CircuitForm.Json

open Bytes (ofChars)

variable {α : Type}

def Blank (pad : Bytes) : Prop :=
  ∀ b ∈ pad, Scan.isBlank b = true

theorem skipBlank_append {pad : Bytes} (hPad : Blank pad) (text : Bytes) :
    Scan.skipBlank (pad ++ text) = Scan.skipBlank text :=
  List.dropWhile_append_of_pos hPad

theorem skipBlank_cons {b : UInt8} (hByte : Scan.isBlank b = false) (rest : Bytes) :
    Scan.skipBlank (b :: rest) = b :: rest := by
  rw [Scan.skipBlank, List.dropWhile_cons, hByte, if_neg Bool.false_ne_true]

theorem atEnd_eq_ok_iff {rest : Bytes} : atEnd rest = .ok () ↔ Blank rest := by
  have hNone : Scan.skipBlank rest = [] ↔ Blank rest := List.dropWhile_eq_nil_iff
  rw [atEnd, ← hNone]
  split
  · rename_i hEmpty
    exact iff_of_true rfl hEmpty
  · rename_i hText
    exact iff_of_false nofun (by simp [hText])

theorem Blank.delimited {rest : Bytes} (h : Blank rest) : Delimited rest := by
  intro b hByte
  exact .inl (h b (List.mem_of_mem_head? hByte))

/-- The elements of a row behind the first, each behind a comma. -/
def rowTail (pad : Bytes) (text : α → Bytes) (values : List α) : Bytes :=
  values.flatMap fun value => Ascii.comma :: (pad ++ text value)

def row (pad : Bytes) (text : α → Bytes) : List α → Bytes
  | [] => []
  | value :: rest => pad ++ (text value ++ rowTail pad text rest)

theorem rowTail_cons (pad : Bytes) (text : α → Bytes) (value : α) (rest : List α) :
    rowTail pad text (value :: rest) = Ascii.comma :: (pad ++ (text value ++ rowTail pad text rest)) := by
  simp [rowTail]

theorem length_le_length_rowTail (pad : Bytes) (text : α → Bytes) (values : List α) :
    values.length ≤ (rowTail pad text values).length := by
  induction values with
  | nil => exact Nat.le_refl 0
  | cons value rest ih =>
    rw [rowTail_cons, List.length_cons, List.length_cons, List.length_append, List.length_append]
    omega

theorem row_map {β : Type} (pad : Bytes) (text : β → Bytes) (f : α → β) (values : List α) :
    row pad text (values.map f) = row pad (text ∘ f) values := by
  cases values with
  | nil => rfl
  | cons value rest => simp [row, rowTail, List.flatMap_map]

theorem length_lt_length_row (pad : Bytes) (text : α → Bytes) (values : List α) (close rest : Bytes)
    (b : UInt8) : values.length < (row pad text values ++ (close ++ b :: rest)).length + 1 := by
  cases values with
  | nil => exact Nat.succ_pos _
  | cons value values =>
    have hTail := length_le_length_rowTail pad text values
    simp only [row, List.length_append, List.length_cons]
    omega

theorem delimited_close {pad : Bytes} (hPad : Blank pad) {b : UInt8} (hByte : IsDelimiter b)
    (rest : Bytes) : Delimited (pad ++ b :: rest) := by
  cases pad with
  | nil => exact next_cons hByte rest
  | cons c pad => exact next_cons (.inl (hPad c List.mem_cons_self)) _

theorem delimited_rowTail (pad : Bytes) (text : α → Bytes) (values : List α) {close : Bytes}
    (hClose : Blank close) {b : UInt8} (hByte : IsDelimiter b) (rest : Bytes) :
    Delimited (rowTail pad text values ++ (close ++ b :: rest)) := by
  cases values with
  | nil => exact delimited_close hClose hByte rest
  | cons value values =>
    rw [rowTail_cons]
    exact next_cons (.inr (.inl rfl)) _

/-- The text of an element starts with a byte that neither is blank nor ends a list. -/
def Opens (text : Bytes) : Prop :=
  ∃ b rest, text = b :: rest ∧ Scan.isBlank b = false ∧ b ≠ Ascii.closeBracket

theorem nextElement_close (first : Bool) {close : Bytes} (hClose : Blank close) (rest : Bytes) :
    nextElement first (close ++ Ascii.closeBracket :: rest) = .ok (false, Ascii.closeBracket :: rest) := by
  rw [nextElement, skipBlank_append hClose, skipBlank_cons (by decide)]
  exact if_pos rfl

theorem nextElement_first {pad text : Bytes} (hPad : Blank pad) (hText : Opens text) (rest : Bytes) :
    nextElement true (pad ++ (text ++ rest)) = .ok (true, text ++ rest) := by
  obtain ⟨b, more, rfl, hBlank, hClose⟩ := hText
  rw [nextElement, skipBlank_append hPad, List.cons_append, skipBlank_cons hBlank]
  dsimp only
  rw [if_neg hClose, if_pos rfl]

theorem nextElement_more {pad text : Bytes} (hPad : Blank pad) (hText : Opens text) (rest : Bytes) :
    nextElement false (Ascii.comma :: (pad ++ (text ++ rest))) = .ok (true, text ++ rest) := by
  obtain ⟨b, more, rfl, hBlank, hClose⟩ := hText
  rw [nextElement, skipBlank_cons (by decide)]
  dsimp only
  rw [if_neg (by decide), if_neg Bool.false_ne_true, if_pos rfl, skipBlank_append hPad, List.cons_append,
    skipBlank_cons hBlank]
  dsimp only
  rw [if_neg hClose]

section Elements

variable {item : Bytes → Except Fault (α × Bytes)} {fuel index : Nat}

theorem elements_of_close {whole rest : Bytes} (hNext : nextElement (index == 0) whole = .ok (false, rest)) :
    elements item (fuel + 1) index whole = .ok ([], rest) :=
  bind_eq_ok_iff.mpr ⟨_, hNext, rfl⟩

theorem elements_of_more {whole found after rest : Bytes} {value : α} {values : List α}
    (hNext : nextElement (index == 0) whole = .ok (true, found)) (hItem : item found = .ok (value, after))
    (hMore : elements item fuel (index + 1) after = .ok (values, rest)) :
    elements item (fuel + 1) index whole = .ok (value :: values, rest) := by
  refine bind_eq_ok_iff.mpr ⟨_, hNext, ?_⟩
  refine bind_eq_ok_iff.mpr ⟨_, within_eq_ok_iff.mpr hItem, ?_⟩
  exact bind_eq_ok_iff.mpr ⟨_, hMore, rfl⟩

variable {text : α → Bytes} {pad close : Bytes} {values : List α}

theorem elements_rowTail (hPad : Blank pad) (hClose : Blank close)
    (hOpens : ∀ value ∈ values, Opens (text value))
    (hItem : ∀ value ∈ values, ∀ rest, Delimited rest → item (text value ++ rest) = .ok (value, rest))
    (hFuel : values.length < fuel) (hIndex : (index == 0) = false) (rest : Bytes) :
    elements item fuel index (rowTail pad text values ++ (close ++ Ascii.closeBracket :: rest)) =
      .ok (values, Ascii.closeBracket :: rest) := by
  induction values generalizing fuel index with
  | nil =>
    cases fuel with
    | zero => cases hFuel
    | succ fuel => exact elements_of_close (nextElement_close _ hClose rest)
  | cons value values ih =>
    cases fuel with
    | zero => cases hFuel
    | succ fuel =>
      rw [List.forall_mem_cons] at hOpens hItem
      rw [rowTail_cons, List.cons_append, List.append_assoc, List.append_assoc]
      have hRest := delimited_rowTail pad text values hClose (.inr (.inr (.inl rfl))) rest
      refine elements_of_more ?_ (hItem.1 _ hRest) (ih hOpens.2 hItem.2 (Nat.lt_of_succ_lt_succ hFuel) rfl)
      rw [hIndex]
      exact nextElement_more hPad hOpens.1 _

theorem elements_row (hPad : Blank pad) (hClose : Blank close)
    (hOpens : ∀ value ∈ values, Opens (text value))
    (hItem : ∀ value ∈ values, ∀ rest, Delimited rest → item (text value ++ rest) = .ok (value, rest))
    (hFuel : values.length < fuel) (rest : Bytes) :
    elements item fuel 0 (row pad text values ++ (close ++ Ascii.closeBracket :: rest)) =
      .ok (values, Ascii.closeBracket :: rest) := by
  cases fuel with
  | zero => cases hFuel
  | succ fuel =>
    cases values with
    | nil => exact elements_of_close (nextElement_close _ hClose rest)
    | cons value values =>
      rw [List.forall_mem_cons] at hOpens hItem
      rw [row, List.append_assoc, List.append_assoc]
      have hRest := delimited_rowTail pad text values hClose (.inr (.inr (.inl rfl))) rest
      exact elements_of_more (nextElement_first hPad hOpens.1 _) (hItem.1 _ hRest)
        (elements_rowTail hPad hClose hOpens.2 hItem.2 (Nat.lt_of_succ_lt_succ hFuel) rfl rest)

end Elements

theorem stringChars_eq (s : String) :
    ofChars (stringChars s) =
      Ascii.quote :: (ofChars (s.toList.flatMap escapeChar) ++ [Ascii.quote]) := by
  rw [stringChars, List.cons_append, Bytes.ofChars_cons_of_lt (by decide), Bytes.ofChars_append]
  rfl

theorem key_append (name : String) (rest : Bytes) :
    key (ofChars (stringChars name) ++ rest) = .ok (some name, rest) := by
  rw [stringChars_eq, List.cons_append, key, if_pos rfl, List.append_assoc, List.singleton_append,
    Scan.string_append]
  rfl

theorem nextKey_close (first : Bool) {close : Bytes} (hClose : Blank close) (rest : Bytes) :
    nextKey first (close ++ Ascii.closeBrace :: rest) = .ok (none, Ascii.closeBrace :: rest) := by
  rw [nextKey, skipBlank_append hClose, skipBlank_cons (by decide)]
  exact if_pos rfl

theorem nextKey_first {pad : Bytes} (hPad : Blank pad) (name : String) (rest : Bytes) :
    nextKey true (pad ++ (ofChars (stringChars name) ++ rest)) = .ok (some name, rest) := by
  rw [← key_append name rest, nextKey, skipBlank_append hPad, stringChars_eq, List.cons_append,
    skipBlank_cons (by decide)]
  dsimp only
  rw [if_neg (by decide), if_pos rfl]

theorem nextKey_more {pad : Bytes} (hPad : Blank pad) (name : String) (rest : Bytes) :
    nextKey false (Ascii.comma :: (pad ++ (ofChars (stringChars name) ++ rest))) =
      .ok (some name, rest) := by
  rw [← key_append name rest, nextKey, skipBlank_cons (by decide)]
  dsimp only
  rw [if_neg (by decide), if_neg Bool.false_ne_true, if_pos rfl, skipBlank_append hPad, stringChars_eq,
    List.cons_append, skipBlank_cons (by decide)]
  dsimp only
  rw [if_neg (by decide)]

section Members

variable {σ : Type} {step : σ → String → Bytes → Except Fault (σ × Bytes)} {fuel : Nat} {first : Bool}

theorem members_of_close {state : σ} {whole rest : Bytes} (hNext : nextKey first whole = .ok (none, rest)) :
    members step (fuel + 1) first state whole = .ok (state, rest) :=
  bind_eq_ok_iff.mpr ⟨_, within_eq_ok_iff.mpr hNext, rfl⟩

theorem members_of_more {state next : σ} {whole found after : Bytes} {name : String}
    {result : σ × Bytes} (hNext : nextKey first whole = .ok (some name, found))
    (hStep : step state name found = .ok (next, after))
    (hMore : members step fuel false next after = .ok result) :
    members step (fuel + 1) first state whole = .ok result := by
  refine bind_eq_ok_iff.mpr ⟨_, within_eq_ok_iff.mpr hNext, ?_⟩
  exact bind_eq_ok_iff.mpr ⟨_, hStep, hMore⟩

/-- A member as it is printed: the name as a string, and what comes behind it. -/
def memberText (body : α → Bytes) (entry : String × α) : Bytes :=
  ofChars (stringChars entry.1) ++ body entry.2

def behindColon (gap : Bytes) (text : α → Bytes) (value : α) : Bytes :=
  Ascii.colon :: (gap ++ text value)

theorem colon_behindColon (gap : Bytes) (text : α → Bytes) (value : α) (rest : Bytes) :
    colon (behindColon gap text value ++ rest) = .ok (gap ++ (text value ++ rest)) := by
  rw [behindColon, List.cons_append, List.append_assoc]
  rfl

variable {body : α → Bytes} {pad close : Bytes} {entries : Entries α} (next : σ → String → α → σ)

theorem members_rowTail (hPad : Blank pad) (hClose : Blank close)
    (hStep : ∀ entry ∈ entries, ∀ state rest, Delimited rest →
      step state entry.1 (body entry.2 ++ rest) = .ok (next state entry.1 entry.2, rest))
    (hFuel : entries.length < fuel) (state : σ) (rest : Bytes) :
    members step fuel false state
        (rowTail pad (memberText body) entries ++ (close ++ Ascii.closeBrace :: rest)) =
      .ok (entries.foldl (fun state entry => next state entry.1 entry.2) state, Ascii.closeBrace :: rest) := by
  induction entries generalizing fuel state with
  | nil =>
    cases fuel with
    | zero => cases hFuel
    | succ fuel => exact members_of_close (nextKey_close _ hClose rest)
  | cons entry entries ih =>
    cases fuel with
    | zero => cases hFuel
    | succ fuel =>
      rw [List.forall_mem_cons] at hStep
      rw [rowTail_cons, memberText, List.cons_append, List.append_assoc, List.append_assoc,
        List.append_assoc]
      have hRest := delimited_rowTail pad (memberText body) entries hClose (.inr (.inr (.inr rfl))) rest
      exact members_of_more (nextKey_more hPad entry.1 _) (hStep.1 state _ hRest)
        (ih hStep.2 (Nat.lt_of_succ_lt_succ hFuel) _)

theorem members_row (hPad : Blank pad) (hClose : Blank close)
    (hStep : ∀ entry ∈ entries, ∀ state rest, Delimited rest →
      step state entry.1 (body entry.2 ++ rest) = .ok (next state entry.1 entry.2, rest))
    (hFuel : entries.length < fuel) (state : σ) (rest : Bytes) :
    members step fuel true state
        (row pad (memberText body) entries ++ (close ++ Ascii.closeBrace :: rest)) =
      .ok (entries.foldl (fun state entry => next state entry.1 entry.2) state, Ascii.closeBrace :: rest) := by
  cases fuel with
  | zero => cases hFuel
  | succ fuel =>
    cases entries with
    | nil => exact members_of_close (nextKey_close _ hClose rest)
    | cons entry entries =>
      rw [List.forall_mem_cons] at hStep
      rw [row, memberText, List.append_assoc, List.append_assoc, List.append_assoc]
      have hRest := delimited_rowTail pad (memberText body) entries hClose (.inr (.inr (.inr rfl))) rest
      exact members_of_more (nextKey_first hPad entry.1 _) (hStep.1 state _ hRest)
        (members_rowTail next hPad hClose hStep.2 (Nat.lt_of_succ_lt_succ hFuel) _ rest)

end Members

end CircuitForm.Json
