import Mathlib.Data.Set.Card
import CircuitForm.Input.InvalidPaths
import CircuitForm.Proofs.Entries
import CircuitForm.Proofs.Path.Order

/-!
# What is in a set of invalid paths

The paths are kept strictly in order and each with the flag that it is invalid. So a path is invalid
exactly if it is there, each is listed once, and the count is the number of different ones.
-/

namespace CircuitForm

namespace InvalidPaths

theorem lookup_insertSorted (path other : Path) (invalid : Bool) (entries : List (Path × Bool)) :
    (insertSorted path invalid entries).lookup other =
      if other = path then some invalid else entries.lookup other := by
  induction entries with
  | nil => exact Entries.lookup_cons other path invalid []
  | cons entry rest ih =>
    obtain ⟨first, flag⟩ := entry
    rw [insertSorted]
    cases hCompare : path.compare first with
    | lt => exact Entries.lookup_cons other path invalid _
    | eq =>
      obtain rfl : path = first := Std.LawfulEqCmp.eq_of_compare hCompare
      simp only [Entries.lookup_cons]
      split <;> rfl
    | gt =>
      have hDiffers : path ≠ first := by
        rintro rfl
        cases Std.ReflCmp.compare_self.symm.trans hCompare
      simp only [Entries.lookup_cons, ih]
      by_cases hSame : other = path
      · rw [if_pos hSame, if_neg (hSame ▸ hDiffers), if_pos hSame]
      · rw [if_neg hSame, if_neg hSame]

theorem not_isInvalid_empty (path : Path) : empty.isInvalid path = false := rfl

theorem isInvalid_register_true {set : InvalidPaths} {path other : Path} :
    (set.register path true).isInvalid other = true ↔ other = path ∨ set.isInvalid other = true := by
  rw [isInvalid, isInvalid, register, if_pos rfl, lookup_insertSorted]
  by_cases hSame : other = path <;> simp [hSame]

theorem isInvalid_register_false {set : InvalidPaths} {path other : Path} :
    (set.register path false).isInvalid other = true ↔
      other ≠ path ∧ set.isInvalid other = true := by
  rw [isInvalid, isInvalid, register, if_neg (by decide), Entries.lookup_filter fun kept : Path => kept ≠ path]
  by_cases hSame : other = path <;> simp [hSame]

theorem isInvalid_clearSubtree {set : InvalidPaths} {path other : Path} :
    (set.clearSubtree path).isInvalid other = true ↔
      ¬ path <+: other ∧ set.isInvalid other = true := by
  rw [isInvalid, isInvalid, clearSubtree, Entries.lookup_filter fun kept : Path => !kept.startsWith path,
    ← Path.startsWith_iff]
  by_cases hBelow : other.startsWith path <;> simp [hBelow]

/-- The paths are in order, and no flag says that its path is valid. -/
structure Canonical (set : InvalidPaths) : Prop where
  sorted : set.entries.Pairwise fun entry later => entry.1.compare later.1 = .lt
  flags : ∀ entry ∈ set.entries, entry.2 = true

theorem mem_insertSorted {path : Path} {invalid : Bool} {entry : Path × Bool} {entries : List (Path × Bool)}
    (h : entry ∈ insertSorted path invalid entries) : entry = (path, invalid) ∨ entry ∈ entries := by
  induction entries with
  | nil => exact .inl (List.mem_singleton.mp h)
  | cons first rest ih =>
    rw [insertSorted] at h
    split at h
    · exact List.mem_cons.mp h
    · exact (List.mem_cons.mp h).imp_right (List.mem_cons_of_mem _)
    · rcases List.mem_cons.mp h with rfl | hRest
      · exact .inr List.mem_cons_self
      · exact (ih hRest).imp_right (List.mem_cons_of_mem _)

theorem pairwise_insertSorted {path : Path} {invalid : Bool} {entries : List (Path × Bool)}
    (h : entries.Pairwise fun entry later => entry.1.compare later.1 = .lt) :
    (insertSorted path invalid entries).Pairwise fun entry later => entry.1.compare later.1 = .lt := by
  induction entries with
  | nil => exact List.pairwise_singleton _ _
  | cons first rest ih =>
    obtain ⟨hFirst, hRest⟩ := List.pairwise_cons.mp h
    rw [insertSorted]
    cases hCompare : path.compare first.1 with
    | lt =>
      refine List.pairwise_cons.mpr ⟨fun other hOther => ?_, h⟩
      rcases List.mem_cons.mp hOther with rfl | hTail
      · exact hCompare
      · exact Std.TransCmp.lt_trans hCompare (hFirst other hTail)
    | eq =>
      obtain rfl : path = first.1 := Std.LawfulEqCmp.eq_of_compare hCompare
      exact List.pairwise_cons.mpr ⟨hFirst, hRest⟩
    | gt =>
      refine List.pairwise_cons.mpr ⟨fun other hOther => ?_, ih hRest⟩
      rcases mem_insertSorted hOther with rfl | hTail
      · exact Std.OrientedCmp.lt_of_gt hCompare
      · exact hFirst other hTail

theorem canonical_empty : empty.Canonical :=
  ⟨List.Pairwise.nil, nofun⟩

namespace Canonical

variable {set : InvalidPaths}

theorem register (h : set.Canonical) (path : Path) (invalid : Bool) :
    (set.register path invalid).Canonical := by
  cases invalid with
  | true =>
    refine ⟨pairwise_insertSorted h.sorted, fun entry hEntry => ?_⟩
    rcases mem_insertSorted hEntry with rfl | hOld
    · rfl
    · exact h.flags entry hOld
  | false => exact ⟨h.sorted.filter _, fun entry hEntry => h.flags entry (List.mem_filter.mp hEntry).1⟩

theorem clearSubtree (h : set.Canonical) (path : Path) : (set.clearSubtree path).Canonical :=
  ⟨h.sorted.filter _, fun entry hEntry => h.flags entry (List.mem_filter.mp hEntry).1⟩

theorem paths_eq (h : set.Canonical) : set.paths = set.entries.map Prod.fst :=
  congrArg (List.map Prod.fst) (List.filter_eq_self.mpr h.flags)

theorem pairwise (h : set.Canonical) : set.paths.Pairwise fun p q => p.compare q = .lt := by
  rw [h.paths_eq, List.pairwise_map]
  exact h.sorted

theorem nodup (h : set.Canonical) : set.paths.Nodup := by
  refine h.pairwise.imp fun {p q} hLess hSame => ?_
  have hEqual : q.compare q = .eq := Std.ReflCmp.compare_self
  rw [hSame, hEqual] at hLess
  cases hLess

theorem isInvalid_iff_mem (h : set.Canonical) {path : Path} : set.isInvalid path = true ↔ path ∈ set.paths := by
  rw [h.paths_eq, isInvalid, List.mem_map]
  constructor
  · intro hInvalid
    cases hFound : set.entries.lookup path with
    | none => simp [hFound] at hInvalid
    | some flag =>
      obtain ⟨front, back, hEntries, -⟩ := List.lookup_eq_some_iff.mp hFound
      exact ⟨(path, flag), by simp [hEntries], rfl⟩
  · rintro ⟨entry, hEntry, rfl⟩
    cases hFound : set.entries.lookup entry.1 with
    | none =>
      have hDiffers := List.lookup_eq_none_iff.mp hFound entry hEntry
      simp at hDiffers
    | some flag =>
      obtain ⟨front, back, hEntries, -⟩ := List.lookup_eq_some_iff.mp hFound
      exact h.flags (entry.1, flag) (by simp [hEntries])

/-- Which paths are invalid determines all that is kept. -/
theorem eq_of_isInvalid {other : InvalidPaths} (h : set.Canonical) (hOther : other.Canonical)
    (hSame : ∀ path, set.isInvalid path = true ↔ other.isInvalid path = true) : set = other := by
  have hPerm : set.paths.Perm other.paths := by
    rw [List.perm_ext_iff_of_nodup h.nodup hOther.nodup]
    intro path
    rw [← h.isInvalid_iff_mem, ← hOther.isInvalid_iff_mem]
    exact hSame path
  have hPaths : set.paths = other.paths := by
    refine hPerm.eq_of_pairwise (fun p q _ _ hLess hGreater => ?_) h.pairwise hOther.pairwise
    have hSwap := Std.OrientedCmp.gt_of_lt hLess
    rw [hGreater] at hSwap
    cases hSwap
  have hEntries : ∀ {set : InvalidPaths}, set.Canonical → set.entries = set.paths.map (·, true) := by
    intro set h
    rw [h.paths_eq, List.map_map, List.map_congr_left fun entry hEntry => ?_, List.map_id]
    exact Prod.ext rfl (h.flags entry hEntry).symm
  exact congrArg InvalidPaths.mk (by rw [hEntries h, hEntries hOther, hPaths])

theorem anyInvalid_iff (h : set.Canonical) : set.anyInvalid = true ↔ ∃ path, set.isInvalid path = true := by
  simp only [h.isInvalid_iff_mem, h.paths_eq, anyInvalid, List.any_eq_true, List.mem_map]
  constructor
  · rintro ⟨entry, hEntry, -⟩
    exact ⟨_, entry, hEntry, rfl⟩
  · rintro ⟨_, entry, hEntry, -⟩
    exact ⟨entry, hEntry, h.flags entry hEntry⟩

theorem ncard_eq_count (h : set.Canonical) : {path | set.isInvalid path = true}.ncard = set.count := by
  have hPaths : {path | set.isInvalid path = true} = (set.paths.toFinset : Set Path) := by
    ext path
    exact h.isInvalid_iff_mem.trans (by simp)
  rw [hPaths, Set.ncard_coe_finset, List.toFinset_card_of_nodup h.nodup, count]

end Canonical

theorem register_comm {set : InvalidPaths} (h : set.Canonical) (p q : Path) :
    (set.register p true).register q true = (set.register q true).register p true := by
  apply ((h.register p true).register q true).eq_of_isInvalid ((h.register q true).register p true)
  intro path
  simp only [isInvalid_register_true]
  exact or_left_comm

theorem clearSubtree_comm (set : InvalidPaths) (p q : Path) :
    (set.clearSubtree p).clearSubtree q = (set.clearSubtree q).clearSubtree p := by
  simp only [clearSubtree, List.filter_filter, Bool.and_comm]

/-- A path that is not below another is marked before or after that one's subtree is cleared. -/
theorem register_clearSubtree {set : InvalidPaths} (h : set.Canonical) {p q : Path} (hPrefix : ¬ p <+: q) :
    (set.register q true).clearSubtree p = (set.clearSubtree p).register q true := by
  apply ((h.register q true).clearSubtree p).eq_of_isInvalid ((h.clearSubtree p).register q true)
  intro path
  rw [isInvalid_clearSubtree, isInvalid_register_true, isInvalid_register_true, isInvalid_clearSubtree]
  constructor
  · rintro ⟨hBelow, rfl | hInvalid⟩
    · exact .inl rfl
    · exact .inr ⟨hBelow, hInvalid⟩
  · rintro (rfl | ⟨hBelow, hInvalid⟩)
    · exact ⟨hPrefix, .inl rfl⟩
    · exact ⟨hBelow, .inr hInvalid⟩

theorem count_pos_iff {set : InvalidPaths} : 0 < set.count ↔ set.anyInvalid = true := by
  rw [count, paths, List.length_map, List.length_filter_pos_iff, anyInvalid, List.any_eq_true]

end InvalidPaths

end CircuitForm
