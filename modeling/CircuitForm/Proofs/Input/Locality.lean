import CircuitForm.Proofs.Input.Replacement
import CircuitForm.Proofs.Path.Apart

/-!
# A replacement is local

What is replaced at a path is found at and below it, and every node at a path apart from it is the
one that was there before. Replacements at paths apart can therefore be made in either order,
although both rebuild the nodes above them.
-/

namespace CircuitForm

namespace InputTree

theorem at?_join (tree : InputTree) (p q : Path) : tree.at? (p.join q) = (tree.at? p).bind (·.at? q) :=
  List.foldlM_append

theorem child_setChild_self {tree item : InputTree} {segment : Segment}
    (h : tree.child segment = some item) (new : InputTree) :
    (tree.setChild segment new).child segment = some new := by
  cases tree with
  | list items =>
    cases segment with
    | index i =>
      obtain ⟨hIndex, -⟩ := List.getElem?_eq_some_iff.mp h
      rw [setChild, child, List.getElem?_set_self hIndex]
    | key _ => cases h
  | struct fields =>
    cases segment with
    | index _ => cases h
    | key name => rw [setChild, child, Entries.lookup_insert, if_pos rfl]
  | number _ | boolean _ | string _ => cases segment <;> cases h

theorem child_setChild_of_ne {segment other : Segment} (h : segment ≠ other) (tree new : InputTree) :
    (tree.setChild segment new).child other = tree.child other := by
  cases tree with
  | list items =>
    cases segment with
    | key _ => rfl
    | index i =>
      cases other with
      | key _ => rfl
      | index j =>
        have hIndex : i ≠ j := fun hSame => h (congrArg Segment.index hSame)
        rw [setChild, child, child, List.getElem?_set_ne hIndex]
  | struct fields =>
    cases segment with
    | index _ => rfl
    | key name =>
      cases other with
      | index _ => rfl
      | key otherName =>
        have hName : otherName ≠ name := fun hSame => h (congrArg Segment.key hSame.symm)
        rw [setChild, child, child, Entries.lookup_insert, if_neg hName]
  | number _ | boolean _ | string _ => cases segment <;> rfl

theorem setChild_comm {tree a b : InputTree} {first second : Segment} (h : first ≠ second)
    (hFirst : tree.child first = some a) (hSecond : tree.child second = some b) (x y : InputTree) :
    (tree.setChild first x).setChild second y = (tree.setChild second y).setChild first x := by
  cases tree with
  | list items =>
    cases first with
    | key _ => cases hFirst
    | index i =>
      cases second with
      | key _ => cases hSecond
      | index j =>
        have hIndex : i ≠ j := fun hSame => h (congrArg Segment.index hSame)
        simp only [setChild, List.set_comm _ _ hIndex]
  | struct fields =>
    cases first with
    | index _ => cases hFirst
    | key name =>
      cases second with
      | index _ => cases hSecond
      | key otherName =>
        have hName : name ≠ otherName := fun hSame => h (congrArg Segment.key hSame)
        simp only [setChild, Entries.insert_comm hName hFirst hSecond]
  | number _ | boolean _ | string _ => cases first <;> cases hFirst

theorem setChild_setChild (tree old new : InputTree) (segment : Segment) :
    (tree.setChild segment old).setChild segment new = tree.setChild segment new := by
  cases tree with
  | list items =>
    cases segment with
    | index i => simp only [setChild, List.set_set]
    | key _ => rfl
  | struct fields =>
    cases segment with
    | index _ => rfl
    | key name => simp only [setChild, Entries.insert_insert]
  | number _ | boolean _ | string _ => cases segment <;> rfl

theorem at?_replaceAt_join {tree value new : InputTree} {path : Path}
    (h : replaceAt value path tree = .ok new) (below : Path) :
    new.at? (path.join below) = value.at? below := by
  induction path generalizing tree new with
  | nil =>
    rw [replaceAt] at h
    cases h
    rfl
  | cons segment rest ih =>
    obtain ⟨item, child, hItem, hChild, rfl⟩ := replaceAt_cons_eq_ok_iff.mp h
    rw [Path.join, List.cons_append, at?_cons, child_setChild_self hItem, Option.bind_some]
    exact ih hChild

theorem at?_replaceAt_of_apart {tree value new : InputTree} {p q : Path} (hApart : p.Apart q)
    (h : replaceAt value p tree = .ok new) : new.at? q = tree.at? q := by
  induction p generalizing tree new q with
  | nil => exact absurd hApart (Path.not_apart_nil_left q)
  | cons a p ih =>
    cases q with
    | nil => exact absurd hApart (Path.not_apart_nil_right _)
    | cons b q =>
      obtain ⟨item, child, hItem, hChild, rfl⟩ := replaceAt_cons_eq_ok_iff.mp h
      rw [at?_cons, at?_cons]
      by_cases hSame : a = b
      · subst hSame
        rw [child_setChild_self hItem, hItem]
        exact ih (Path.apart_cons_iff.mp hApart rfl) hChild
      · rw [child_setChild_of_ne hSame]

/-- Both orders rebuild the nodes above the paths, and both come to the same tree. -/
theorem replaceAt_comm {tree x y first second : InputTree} {p q : Path} (hApart : p.Apart q)
    (hFirst : replaceAt x p tree = .ok first) (hSecond : replaceAt y q tree = .ok second) :
    ∃ both, replaceAt y q first = .ok both ∧ replaceAt x p second = .ok both := by
  induction p generalizing tree first second q with
  | nil => exact absurd hApart (Path.not_apart_nil_left q)
  | cons a p ih =>
    cases q with
    | nil => exact absurd hApart (Path.not_apart_nil_right _)
    | cons b q =>
      obtain ⟨atFirst, newFirst, hAtFirst, hNewFirst, rfl⟩ := replaceAt_cons_eq_ok_iff.mp hFirst
      obtain ⟨atSecond, newSecond, hAtSecond, hNewSecond, rfl⟩ := replaceAt_cons_eq_ok_iff.mp hSecond
      by_cases hSame : a = b
      · -- One child is above both paths, and the replacements are made within it.
        subst hSame
        cases hAtFirst.symm.trans hAtSecond
        obtain ⟨both, hBothFirst, hBothSecond⟩ :=
          ih (Path.apart_cons_iff.mp hApart rfl) hNewFirst hNewSecond
        refine ⟨tree.setChild a both, ?_, ?_⟩
        · refine replaceAt_cons_eq_ok_iff.mpr
            ⟨newFirst, both, child_setChild_self hAtFirst _, hBothFirst, ?_⟩
          exact setChild_setChild tree newFirst both a
        · refine replaceAt_cons_eq_ok_iff.mpr
            ⟨newSecond, both, child_setChild_self hAtFirst _, hBothSecond, ?_⟩
          exact setChild_setChild tree newSecond both a
      · have hChildFirst : (tree.setChild a newFirst).child b = some atSecond := by
          rw [child_setChild_of_ne hSame, hAtSecond]
        have hChildSecond : (tree.setChild b newSecond).child a = some atFirst := by
          rw [child_setChild_of_ne (Ne.symm hSame), hAtFirst]
        refine ⟨(tree.setChild a newFirst).setChild b newSecond, ?_, ?_⟩
        · exact replaceAt_cons_eq_ok_iff.mpr ⟨atSecond, newSecond, hChildFirst, hNewSecond, rfl⟩
        · refine replaceAt_cons_eq_ok_iff.mpr ⟨atFirst, newFirst, hChildSecond, hNewFirst, ?_⟩
          exact (setChild_comm hSame hAtFirst hAtSecond newFirst newSecond).symm

end InputTree

namespace Inputs

section

variable {inputs new : Inputs} {value : InputTree}

theorem at?_replace_join {path : Path} (h : inputs.replace path value = .ok new) (below : Path) :
    new.at? (path.join below) = value.at? below := by
  obtain ⟨hPath, hTree⟩ := replace_eq_ok_iff.mp h
  obtain ⟨segment, rest, rfl⟩ := List.exists_cons_of_ne_nil hPath
  have hNode := InputTree.at?_replaceAt_join hTree below
  rwa [Path.join, List.cons_append, ← at?_cons] at hNode

theorem at?_replace {path : Path} (h : inputs.replace path value = .ok new) :
    new.at? path = some value := by
  have hNode := at?_replace_join h []
  rwa [Path.join, List.append_nil] at hNode

theorem at?_replace_of_apart {p q : Path} (hApart : p.Apart q) (h : inputs.replace p value = .ok new) :
    new.at? q = inputs.at? q := by
  obtain ⟨-, hTree⟩ := replace_eq_ok_iff.mp h
  cases q with
  | nil => rfl
  | cons segment rest =>
    rw [at?_cons, at?_cons]
    exact InputTree.at?_replaceAt_of_apart hApart hTree

end

theorem replace_comm {inputs first second : Inputs} {x y : InputTree} {p q : Path} (hApart : p.Apart q)
    (hFirst : inputs.replace p x = .ok first) (hSecond : inputs.replace q y = .ok second) :
    ∃ both, first.replace q y = .ok both ∧ second.replace p x = .ok both := by
  obtain ⟨hP, hFirstTree⟩ := replace_eq_ok_iff.mp hFirst
  obtain ⟨hQ, hSecondTree⟩ := replace_eq_ok_iff.mp hSecond
  obtain ⟨tree, hTreeFirst, hTreeSecond⟩ := InputTree.replaceAt_comm hApart hFirstTree hSecondTree
  obtain ⟨segment, rest, rfl⟩ := List.exists_cons_of_ne_nil hQ
  obtain ⟨item, below, hItem, -, rfl⟩ := InputTree.replaceAt_cons_eq_ok_iff.mp hTreeFirst
  cases segment with
  | index _ => cases hItem
  | key name =>
    exact ⟨_, replace_eq_ok_iff.mpr ⟨hQ, hTreeFirst⟩, replace_eq_ok_iff.mpr ⟨hP, hTreeSecond⟩⟩

end Inputs

end CircuitForm
