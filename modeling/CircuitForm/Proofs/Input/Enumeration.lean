import CircuitForm.Proofs.Input.Leaves
import CircuitForm.Proofs.Input.Locality
import CircuitForm.Proofs.Input.Text

/-!
# The leaves of a tree, listed

The scalars of a tree are listed with their paths. There is nothing below a scalar, so the paths to
two of them are apart, and each can be put in its place without a change to the others.
-/

namespace CircuitForm

namespace InputTree

def isScalar : InputTree → Bool
  | .number _ | .boolean _ | .string _ => true
  | .list _ | .struct _ => false

/-- Entries of a node, with the paths from above it. -/
def under (path : Path) (entries : List (Path × InputTree)) : List (Path × InputTree) :=
  entries.map fun entry => (path.join entry.1, entry.2)

mutual

/-- The scalars of a tree with their paths, in order. -/
def leaves : InputTree → List (Path × InputTree)
  | .list items => leavesOfItems 0 items
  | .struct fields => leavesOfFields fields
  | scalar => [([], scalar)]

def leavesOfItems : (index : Nat) → List InputTree → List (Path × InputTree)
  | _, [] => []
  | index, item :: rest => under [.index index] (leaves item) ++ leavesOfItems (index + 1) rest

def leavesOfFields : List (String × InputTree) → List (Path × InputTree)
  | [] => []
  | (name, item) :: rest => under [.key name] (leaves item) ++ leavesOfFields rest

end

/-- Each scalar of the tree is listed under its path, and nothing else is listed. -/
def Lists (order : List (Path × InputTree)) (tree : InputTree) : Prop :=
  ∀ path leaf, (path, leaf) ∈ order ↔ tree.at? path = some leaf ∧ leaf.isScalar = true

theorem Lists.perm {order other : List (Path × InputTree)} {tree : InputTree} (h : Lists order tree)
    (hPerm : order.Perm other) : Lists other tree :=
  fun path leaf => hPerm.mem_iff.symm.trans (h path leaf)

theorem mem_under {path below : Path} {leaf : InputTree} {entries : List (Path × InputTree)} :
    (path.join below, leaf) ∈ under path entries ↔ (below, leaf) ∈ entries := by
  simp [under, Path.join]

theorem cons_mem_under_iff {segment other : Segment} {rest : Path} {leaf : InputTree}
    {entries : List (Path × InputTree)} :
    (other :: rest, leaf) ∈ under [segment] entries ↔ segment = other ∧ (rest, leaf) ∈ entries := by
  simp [under, Path.join, and_comm]

theorem nil_not_mem_leavesOfItems (index : Nat) (items : List InputTree) (leaf : InputTree) :
    ([], leaf) ∉ leavesOfItems index items := by
  induction items generalizing index with
  | nil => simp [leavesOfItems]
  | cons item rest ih => simp [leavesOfItems, under, Path.join, ih]

theorem nil_not_mem_leavesOfFields (fields : Entries InputTree) (leaf : InputTree) :
    ([], leaf) ∉ leavesOfFields fields := by
  induction fields with
  | nil => simp [leavesOfFields]
  | cons field rest ih => simp [leavesOfFields, under, Path.join, ih]

theorem cons_mem_leavesOfItems_iff {index : Nat} {items : List InputTree} {segment : Segment} {rest : Path}
    {leaf : InputTree} :
    (segment :: rest, leaf) ∈ leavesOfItems index items ↔
      ∃ i item, segment = .index (index + i) ∧ items[i]? = some item ∧ (rest, leaf) ∈ item.leaves := by
  induction items generalizing index with
  | nil => simp [leavesOfItems]
  | cons item others ih =>
    rw [leavesOfItems, List.mem_append, cons_mem_under_iff, ih]
    constructor
    · rintro (⟨rfl, hLeaf⟩ | ⟨i, found, rfl, hFound, hLeaf⟩)
      · exact ⟨0, item, rfl, rfl, hLeaf⟩
      · exact ⟨i + 1, found, by rw [Nat.add_right_comm, Nat.add_assoc], hFound, hLeaf⟩
    · rintro ⟨i, found, rfl, hFound, hLeaf⟩
      cases i with
      | zero =>
        cases hFound
        exact .inl ⟨rfl, hLeaf⟩
      | succ i => exact .inr ⟨i, found, by rw [Nat.add_right_comm, Nat.add_assoc], hFound, hLeaf⟩

theorem cons_mem_leavesOfFields_iff {fields : Entries InputTree} {segment : Segment} {rest : Path}
    {leaf : InputTree} :
    (segment :: rest, leaf) ∈ leavesOfFields fields ↔
      ∃ name item, segment = .key name ∧ (name, item) ∈ fields ∧ (rest, leaf) ∈ item.leaves := by
  induction fields with
  | nil => simp [leavesOfFields]
  | cons field others ih =>
    obtain ⟨first, item⟩ := field
    rw [leavesOfFields, List.mem_append, cons_mem_under_iff, ih]
    constructor
    · rintro (⟨rfl, hLeaf⟩ | ⟨name, found, rfl, hFound, hLeaf⟩)
      · exact ⟨first, item, rfl, List.mem_cons_self, hLeaf⟩
      · exact ⟨name, found, rfl, List.mem_cons_of_mem _ hFound, hLeaf⟩
    · rintro ⟨name, found, rfl, hFound, hLeaf⟩
      rcases List.mem_cons.mp hFound with hFirst | hOthers
      · cases hFirst
        exact .inl ⟨rfl, hLeaf⟩
      · exact .inr ⟨name, found, rfl, hOthers, hLeaf⟩

theorem nil_mem_leaves_iff {tree leaf : InputTree} :
    ([], leaf) ∈ tree.leaves ↔ tree = leaf ∧ leaf.isScalar = true := by
  cases tree with
  | number _ | boolean _ | string _ =>
    rw [leaves, List.mem_singleton, Prod.mk.injEq, eq_comm (a := leaf)]
    · constructor
      · rintro ⟨-, rfl⟩
        exact ⟨rfl, rfl⟩
      · rintro ⟨rfl, -⟩
        exact ⟨rfl, rfl⟩
    all_goals nofun
  | list items =>
    refine iff_of_false (nil_not_mem_leavesOfItems 0 items leaf) ?_
    rintro ⟨rfl, ⟨⟩⟩
  | struct fields =>
    refine iff_of_false (nil_not_mem_leavesOfFields fields leaf) ?_
    rintro ⟨rfl, ⟨⟩⟩

/-- A name that came twice would be listed twice, and only the first one is at its path. -/
theorem cons_mem_leaves_iff {tree leaf : InputTree} (hNames : tree.DistinctNames) {segment : Segment}
    {rest : Path} :
    (segment :: rest, leaf) ∈ tree.leaves ↔
      ∃ item, tree.child segment = some item ∧ (rest, leaf) ∈ item.leaves := by
  cases tree with
  | number _ | boolean _ | string _ => cases segment <;> simp [leaves, child]
  | list items =>
    rw [leaves, cons_mem_leavesOfItems_iff]
    cases segment with
    | key _ => simp [child]
    | index i => simp [child]
  | struct fields =>
    have hDistinct : Entries.Distinct fields := hNames [] fields rfl
    rw [leaves, cons_mem_leavesOfFields_iff]
    constructor
    · rintro ⟨name, item, rfl, hItem, hLeaf⟩
      exact ⟨item, Entries.lookup_of_mem hDistinct hItem, hLeaf⟩
    · rintro ⟨item, hItem, hLeaf⟩
      cases segment with
      | index _ => cases hItem
      | key name => exact ⟨name, item, rfl, Entries.mem_of_lookup hItem, hLeaf⟩

theorem lists_leaves {tree : InputTree} (hNames : tree.DistinctNames) : Lists tree.leaves tree := by
  intro path leaf
  induction path generalizing tree with
  | nil =>
    rw [nil_mem_leaves_iff]
    exact and_congr_left fun _ => Option.some_inj.symm
  | cons segment rest ih =>
    rw [cons_mem_leaves_iff hNames, at?_cons]
    cases hItem : tree.child segment with
    | none => simp
    | some item => simp [ih (hNames.child hItem)]

example : (list [struct [], list []]).leaves = [] := rfl

theorem eq_nil_of_isScalar {leaf node : InputTree} (hScalar : leaf.isScalar = true) {path : Path}
    (h : leaf.at? path = some node) : path = [] := by
  cases path with
  | nil => rfl
  | cons segment rest =>
    rw [at?_cons] at h
    cases leaf with
    | number _ | boolean _ | string _ => cases segment <;> cases h
    | list _ | struct _ => cases hScalar

theorem Fits.isScalar_eq {tree : InputTree} {type : Descriptor} (h : tree.Fits type) :
    tree.isScalar = type.isScalar := by
  cases type with
  | field | boolean | string _ | integer _ _ =>
    cases tree with
    | number _ | boolean _ | string _ => rfl
    | list _ | struct _ => simp [Fits] at h
  | array length element =>
    obtain ⟨items, rfl, -⟩ := h.exists_list_of_array
    rfl
  | tuple elements =>
    obtain ⟨items, rfl, -⟩ := h.exists_list_of_tuple
    rfl
  | struct path fields =>
    obtain ⟨entries, rfl, -⟩ := h.exists_struct
    rfl

end InputTree

namespace Inputs

theorem at?_join {inputs : Inputs} {node : InputTree} {path : Path} (h : inputs.at? path = some node)
    (below : Path) : inputs.at? (path.join below) = node.at? below := by
  cases path with
  | nil => cases h
  | cons segment rest =>
    rw [at?_cons] at h
    rw [Path.join, List.cons_append, at?_cons]
    exact (InputTree.at?_join _ (segment :: rest) below).trans (by rw [h, Option.bind_some])

/-- No path leads through the place of a scalar. -/
theorem eq_of_prefix_of_isScalar {inputs : Inputs} {leaf node : InputTree} {p q : Path}
    (hLeaf : inputs.at? p = some leaf) (hScalar : leaf.isScalar = true) (hNode : inputs.at? q = some node)
    (h : p <+: q) : p = q := by
  obtain ⟨below, rfl⟩ := h
  have hBelow : leaf.at? below = some node := (at?_join hLeaf below).symm.trans hNode
  obtain rfl := InputTree.eq_nil_of_isScalar hScalar hBelow
  exact (List.append_nil p).symm

theorem apart_of_isScalar {inputs : Inputs} {first second : InputTree} {p q : Path} (hPaths : p ≠ q)
    (hFirst : inputs.at? p = some first) (hFirstScalar : first.isScalar = true)
    (hSecond : inputs.at? q = some second) (hSecondScalar : second.isScalar = true) : p.Apart q := by
  constructor
  · intro hPrefix
    exact hPaths (eq_of_prefix_of_isScalar hFirst hFirstScalar hSecond hPrefix)
  · intro hPrefix
    exact hPaths (eq_of_prefix_of_isScalar hSecond hSecondScalar hFirst hPrefix).symm

/-- Each scalar of the target is in its place already, or it is listed. -/
def Lacks (inputs target : Inputs) (order : List (Path × InputTree)) : Prop :=
  ∀ path leaf, target.at? path = some leaf → leaf.isScalar = true →
    inputs.at? path = some leaf ∨ (path, leaf) ∈ order

/-- A value that replaces a node brings in its own scalars, and no others. -/
theorem lacks_of_replace {inputs target : Inputs} {path : Path} {value : InputTree}
    (h : inputs.replace path value = .ok target) {order : List (Path × InputTree)}
    (hOrder : InputTree.Lists order value) : inputs.Lacks target (InputTree.under path order) := by
  intro place leaf hLeaf hScalar
  by_cases hBelow : path <+: place
  · obtain ⟨below, rfl⟩ := hBelow
    have hValue : value.at? below = some leaf := (at?_replace_join h below).symm.trans hLeaf
    exact .inr (InputTree.mem_under.mpr ((hOrder below leaf).mpr ⟨hValue, hScalar⟩))
  · have hApart : path.Apart place := by
      refine ⟨hBelow, fun hPrefix => ?_⟩
      obtain rfl := eq_of_prefix_of_isScalar hLeaf hScalar (at?_replace h) hPrefix
      exact hBelow hPrefix
    exact .inl ((at?_replace_of_apart hApart h).symm.trans hLeaf)

theorem Lacks.replace {inputs target new : Inputs} {path : Path} {leaf : InputTree}
    {rest : List (Path × InputTree)} (h : inputs.Lacks target ((path, leaf) :: rest))
    (hLeaf : target.at? path = some leaf) (hScalar : leaf.isScalar = true)
    (hNew : inputs.replace path leaf = .ok new) : new.Lacks target rest := by
  intro other found hFound hFoundScalar
  by_cases hSame : path = other
  · subst hSame
    cases hLeaf.symm.trans hFound
    exact .inl (at?_replace hNew)
  · have hApart := apart_of_isScalar hSame hLeaf hScalar hFound hFoundScalar
    rcases h other found hFound hFoundScalar with hThere | hListed
    · exact .inl ((at?_replace_of_apart hApart hNew).trans hThere)
    · refine .inr ((List.mem_cons.mp hListed).resolve_left ?_)
      rintro ⟨⟩
      exact hSame rfl

/-- Inputs that fit are determined by their scalars. -/
theorem Lacks.eq {inputs target : Inputs} (h : inputs.Lacks target []) {parameters : List Parameter}
    (hNames : (Descriptor.ofParameters parameters).DistinctNames) (hInputs : inputs.Fit parameters)
    (hTarget : target.Fit parameters) : inputs = target := by
  have hStruct : InputTree.struct inputs = .struct target := by
    refine (fit_iff.mp hInputs).eq_of_leaves hNames (fit_iff.mp hTarget) ?_
    intro path declared hDeclared hScalar
    obtain ⟨leaf, hLeaf, hFits⟩ := (fit_iff.mp hTarget).exists_at? hDeclared
    cases path with
    | nil =>
      cases hDeclared
      cases hScalar
    | cons segment rest =>
      rw [hLeaf, ← at?_cons]
      rw [← at?_cons] at hLeaf
      have hLeafScalar : leaf.isScalar = true := hFits.isScalar_eq.trans hScalar
      exact (h (segment :: rest) leaf hLeaf hLeafScalar).resolve_right List.not_mem_nil
  exact InputTree.struct.inj hStruct

end Inputs

end CircuitForm
