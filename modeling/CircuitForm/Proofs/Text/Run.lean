import Mathlib.Data.List.TakeWhile

/-!
# Runs at the front of a text

Where the characters of a run are followed by one that cannot belong to it, taking as many as
possible takes the run and leaves what follows.
-/

namespace CircuitForm.Text

variable {α : Type} {p : α → Bool} {run rest : List α}

theorem takeWhile_append (hRun : ∀ c ∈ run, p c = true) (hRest : ∀ c ∈ rest.head?, p c = false) :
    (run ++ rest).takeWhile p = run := by
  rw [List.takeWhile_append_of_pos hRun]
  cases rest with
  | nil => exact List.append_nil run
  | cons c rest => rw [List.takeWhile_cons, hRest c rfl, if_neg Bool.false_ne_true, List.append_nil]

theorem dropWhile_append (hRun : ∀ c ∈ run, p c = true) (hRest : ∀ c ∈ rest.head?, p c = false) :
    (run ++ rest).dropWhile p = rest := by
  rw [List.dropWhile_append_of_pos hRun]
  cases rest with
  | nil => rfl
  | cons c rest => rw [List.dropWhile_cons, hRest c rfl, if_neg Bool.false_ne_true]

theorem head?_dropWhile (cs : List α) : ∀ c ∈ (cs.dropWhile p).head?, p c = false := by
  intro c hChar
  have hNot := List.head?_dropWhile_not p cs
  rwa [Option.mem_def.mp hChar] at hNot

end CircuitForm.Text
