import Mathlib.Data.List.Induction
import CircuitForm.Proofs.Input.InvalidPaths

/-!
# Marks after any operations

A set of invalid paths is changed in three ways: one path is marked or unmarked, all paths below one are
unmarked, or all there are. Whatever has been done, a path is marked exactly if the last operation that
concerns it marked it, and the set is the row of these paths in order.
-/

namespace CircuitForm

namespace InvalidPaths

inductive Operation where
  | register (path : Path) (invalid : Bool)
  | clearSubtree (path : Path)
  | reset
deriving DecidableEq, Repr

def apply (set : InvalidPaths) : Operation → InvalidPaths
  | .register path invalid => set.register path invalid
  | .clearSubtree path => set.clearSubtree path
  | .reset => .empty

/-- The set after the operations, which started with none. -/
def after (operations : List Operation) : InvalidPaths :=
  operations.foldl apply empty

theorem after_concat (operations : List Operation) (operation : Operation) :
    after (operations ++ [operation]) = (after operations).apply operation := by
  rw [after, after, List.foldl_append]
  rfl

/-- The operation says anew whether the path is invalid. -/
def Operation.Concerns (path : Path) : Operation → Prop
  | .register other _ => other = path
  | .clearSubtree above => above <+: path
  | .reset => True

instance (path : Path) : DecidablePred (Operation.Concerns path)
  | .register other _ => inferInstanceAs (Decidable (other = path))
  | .clearSubtree above => inferInstanceAs (Decidable (above <+: path))
  | .reset => inferInstanceAs (Decidable True)

def lastOn? (path : Path) (operations : List Operation) : Option Operation :=
  (operations.filter (·.Concerns path)).getLast?

theorem lastOn?_concat (path : Path) (operations : List Operation) (operation : Operation) :
    lastOn? path (operations ++ [operation]) =
      if operation.Concerns path then some operation else lastOn? path operations := by
  rw [lastOn?, lastOn?, List.filter_append]
  by_cases hConcerns : operation.Concerns path
  · rw [if_pos hConcerns, List.filter_cons_of_pos (by simpa using hConcerns), List.filter_nil,
      List.getLast?_concat]
  · rw [if_neg hConcerns, List.filter_cons_of_neg (by simpa using hConcerns), List.filter_nil,
      List.append_nil]

/-- An operation marks its path, and leaves every path alone that it does not concern. -/
theorem isInvalid_apply_iff {set : InvalidPaths} {operation : Operation} {path : Path} :
    (set.apply operation).isInvalid path = true ↔
      if operation.Concerns path then operation = .register path true else set.isInvalid path = true := by
  cases operation with
  | register other invalid =>
    cases invalid with
    | true =>
      rw [apply, isInvalid_register_true]
      by_cases hSame : other = path <;> simp [Operation.Concerns, hSame, eq_comm (a := path)]
    | false =>
      rw [apply, isInvalid_register_false]
      by_cases hSame : other = path <;> simp [Operation.Concerns, hSame, eq_comm (a := path)]
  | clearSubtree above =>
    rw [apply, isInvalid_clearSubtree]
    by_cases hAbove : above <+: path <;> simp [Operation.Concerns, hAbove]
  | reset => simp [apply, Operation.Concerns, not_isInvalid_empty]

theorem isInvalid_after_iff {operations : List Operation} {path : Path} :
    (after operations).isInvalid path = true ↔ lastOn? path operations = some (.register path true) := by
  induction operations using List.reverseRecOn with
  | nil => exact iff_of_false (by simp [after, not_isInvalid_empty]) nofun
  | append_singleton before operation ih =>
    rw [after_concat, isInvalid_apply_iff, lastOn?_concat]
    by_cases hConcerns : operation.Concerns path
    · rw [if_pos hConcerns, if_pos hConcerns, Option.some.injEq]
    · rw [if_neg hConcerns, if_neg hConcerns, ih]

theorem Canonical.apply {set : InvalidPaths} (h : set.Canonical) (operation : Operation) :
    (set.apply operation).Canonical := by
  cases operation with
  | register path invalid => exact h.register path invalid
  | clearSubtree path => exact h.clearSubtree path
  | reset => exact canonical_empty

theorem canonical_after (operations : List Operation) : (after operations).Canonical := by
  induction operations using List.reverseRecOn with
  | nil => exact canonical_empty
  | append_singleton before operation ih =>
    rw [after_concat]
    exact ih.apply operation

theorem Canonical.pairwise_less {set : InvalidPaths} (h : set.Canonical) : set.paths.Pairwise Path.Less :=
  h.pairwise.imp Path.compare_eq_lt_iff.mp

/-- The paths that the operations leave marked are told by the last operation on each, and no path is
kept that they leave unmarked. The set lists the paths in order and each once, counts them, and is the
same for all operations that leave the same ones. -/
theorem marks_after (operations : List Operation) :
    (∀ path, (after operations).isInvalid path = true ↔
      lastOn? path operations = some (.register path true)) ∧
    (∀ path, path ∈ (after operations).paths ↔ lastOn? path operations = some (.register path true)) ∧
    (∀ entry ∈ (after operations).entries, entry.2 = true) ∧
    (after operations).paths.Nodup ∧ (after operations).paths.Pairwise Path.Less ∧
    (after operations).count = {path | lastOn? path operations = some (.register path true)}.ncard ∧
    ((after operations).anyInvalid = true ↔ 0 < (after operations).count) ∧
    ∀ others, after operations = after others ↔
      ∀ path, (after operations).isInvalid path = (after others).isInvalid path := by
  have hCanonical := canonical_after operations
  refine ⟨fun _ => isInvalid_after_iff, ?_, hCanonical.flags, hCanonical.nodup, hCanonical.pairwise_less, ?_,
    count_pos_iff.symm, ?_⟩
  · intro path
    rw [← hCanonical.isInvalid_iff_mem]
    exact isInvalid_after_iff
  · rw [← hCanonical.ncard_eq_count]
    exact congrArg Set.ncard (Set.ext fun _ => isInvalid_after_iff)
  · intro others
    constructor
    · intro hSame path
      rw [hSame]
    · intro hSame
      exact hCanonical.eq_of_isInvalid (canonical_after others) fun path => by rw [hSame path]

end InvalidPaths

end CircuitForm
