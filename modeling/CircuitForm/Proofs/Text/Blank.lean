import CircuitForm.Proofs.Text.Run
import CircuitForm.Text.Blank

/-!
# Trimming

What is trimmed away is blank, and what is left neither starts nor ends with a blank. There is only
one such part of a text.
-/

namespace CircuitForm.Text

/-- What is left of a text without the blanks at both ends. -/
def Trimmed (cs body : List Char) : Prop :=
  ∃ front back, cs = front ++ (body ++ back) ∧
    (∀ c ∈ front, isBlank c = true) ∧ (∀ c ∈ back, isBlank c = true) ∧
    (∀ c ∈ body.head?, isBlank c = false) ∧ ∀ c ∈ body.getLast?, isBlank c = false

theorem dropWhile_isBlank_eq_self {cs : List Char} (h : ∀ c ∈ cs.head?, isBlank c = false) :
    cs.dropWhile isBlank = cs :=
  @dropWhile_append _ _ [] cs (fun _ hChar => nomatch hChar) h

theorem trimList_eq_self {cs : List Char} (hFirst : ∀ c ∈ cs.head?, isBlank c = false)
    (hLast : ∀ c ∈ cs.getLast?, isBlank c = false) : trimList cs = cs := by
  have hReverse : ∀ c ∈ cs.reverse.head?, isBlank c = false := by
    rwa [List.head?_reverse]
  rw [trimList, dropWhile_isBlank_eq_self hFirst, dropWhile_isBlank_eq_self hReverse, List.reverse_reverse]

theorem trimmed_trimList (cs : List Char) : Trimmed cs (trimList cs) := by
  let behind := (cs.dropWhile isBlank).reverse
  have hBehind : trimList cs ++ (behind.takeWhile isBlank).reverse = cs.dropWhile isBlank := by
    rw [trimList, ← List.reverse_append, List.takeWhile_append_dropWhile, List.reverse_reverse]
  refine ⟨cs.takeWhile isBlank, (behind.takeWhile isBlank).reverse, ?_, ?_, ?_, ?_, ?_⟩
  · rw [hBehind, List.takeWhile_append_dropWhile]
  · intro c hChar
    exact List.mem_takeWhile_imp hChar
  · intro c hChar
    exact List.mem_takeWhile_imp (List.mem_reverse.mp hChar)
  · intro c hChar
    apply head?_dropWhile cs c
    rw [← hBehind, List.head?_append, Option.mem_def.mp hChar]
    rfl
  · intro c hChar
    rw [trimList, List.getLast?_reverse] at hChar
    exact head?_dropWhile _ c hChar

theorem Trimmed.trimList_eq {cs body : List Char} (h : Trimmed cs body) : trimList cs = body := by
  obtain ⟨front, back, rfl, hFront, hBack, hFirst, hLast⟩ := h
  have hBehind : ∀ c ∈ back.reverse, isBlank c = true := by
    intro c hChar
    exact hBack c (List.mem_reverse.mp hChar)
  cases body with
  | nil =>
    have hAll : (front ++ ([] ++ back)).dropWhile isBlank = [] := by
      rw [List.dropWhile_eq_nil_iff]
      intro c hChar
      exact (List.mem_append.mp hChar).elim (hFront c) (hBack c)
    rw [trimList, hAll]
    rfl
  | cons c body =>
    have hDrop : (front ++ (c :: body ++ back)).dropWhile isBlank = c :: body ++ back :=
      dropWhile_append hFront hFirst
    rw [trimList, hDrop, List.reverse_append, dropWhile_append hBehind (by rwa [List.head?_reverse]),
      List.reverse_reverse]

/-- No blank is among the characters of ASCII that leave a mark. -/
theorem isBlank_of_graphic {c : Char} (hLow : 33 ≤ c.toNat) (hHigh : c.toNat ≤ 126) : isBlank c = false := by
  have hRange : ∀ first last : Char, 126 < first.toNat ∨ last.toNat < 33 → first ≤ c → last < c := by
    intro first last hOutside hFirst
    rw [Char.le_def, UInt32.le_iff_toNat_le] at hFirst
    rw [Char.lt_def, UInt32.lt_iff_toNat_lt]
    have hFirstNat : first.toNat ≤ c.toNat := hFirst
    have hLast : last.toNat < c.toNat := by omega
    exact hLast
  have hSingle : ∀ d : Char, 126 < d.toNat ∨ d.toNat < 33 → c ≠ d := by
    rintro d hOutside rfl
    omega
  have hControl := hRange '\t' '\x0d' (by decide)
  have hSpaces := hRange '\u2000' '\u200a' (by decide)
  simpa [isBlank, hSingle] using ⟨hControl, hSpaces⟩

end CircuitForm.Text
