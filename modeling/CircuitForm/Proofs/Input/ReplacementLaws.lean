import CircuitForm.Proofs.Input.Locality

/-!
# Laws of replacement

A replacement is made exactly where there is a node. It puts the value there, leaves all that is
apart from it, and keeps what the nodes above are and which children they have. Replacements at one
path override each other, and one below a path is one at the path.
-/

namespace CircuitForm

namespace InputTree

/-- The number of children. -/
def size : InputTree → Nat
  | .list items => items.length
  | .struct fields => fields.length
  | .number _ | .boolean _ | .string _ => 0

/-- The names of the children, in order. -/
def names : InputTree → List String
  | .struct fields => Entries.names fields
  | .list _ | .number _ | .boolean _ | .string _ => []

/-- The node is of the same kind and has as many children, under the same names in the same order. -/
structure SameFrame (old new : InputTree) : Prop where
  kind_eq : new.kindName = old.kindName
  size_eq : new.size = old.size
  names_eq : new.names = old.names

theorem sameFrame_setChild {tree item : InputTree} {segment : Segment} (h : tree.child segment = some item)
    (new : InputTree) : SameFrame tree (tree.setChild segment new) := by
  cases tree with
  | list items =>
    cases segment with
    | index i => exact ⟨rfl, List.length_set, rfl⟩
    | key _ => cases h
  | struct fields =>
    cases segment with
    | index _ => cases h
    | key name =>
      have hMember : name ∈ Entries.names fields := List.mem_map.mpr ⟨_, Entries.mem_of_lookup h, rfl⟩
      have hNames : Entries.names (Entries.insert name new fields) = Entries.names fields := by
        rw [Entries.names_insert, if_pos hMember]
      have hSize : (Entries.insert name new fields).length = fields.length := by
        simpa [Entries.names] using congrArg List.length hNames
      exact ⟨rfl, hSize, hNames⟩
  | number _ | boolean _ | string _ => cases segment <;> cases h

theorem sameFrame_replaceAt {tree value new : InputTree} {path above : Path}
    (h : replaceAt value path tree = .ok new) (hAbove : above <+: path) (hProper : above ≠ path) :
    ∃ old node, tree.at? above = some old ∧ new.at? above = some node ∧ SameFrame old node := by
  induction path generalizing tree new above with
  | nil => exact absurd (List.prefix_nil.mp hAbove) hProper
  | cons segment rest ih =>
    obtain ⟨item, below, hItem, hBelow, rfl⟩ := replaceAt_cons_eq_ok_iff.mp h
    cases above with
    | nil => exact ⟨_, _, rfl, rfl, sameFrame_setChild hItem below⟩
    | cons first above =>
      obtain ⟨rfl, hPrefix⟩ := List.cons_prefix_cons.mp hAbove
      have hRest : above ≠ rest := fun hSame => hProper (congrArg (first :: ·) hSame)
      rw [at?_cons, at?_cons, hItem, child_setChild_self hItem]
      exact ih hBelow hPrefix hRest

theorem exists_at?_of_replaceAt {tree value new : InputTree} {path : Path}
    (h : replaceAt value path tree = .ok new) : ∃ node, tree.at? path = some node := by
  induction path generalizing tree new with
  | nil => exact ⟨tree, rfl⟩
  | cons segment rest ih =>
    obtain ⟨item, below, hItem, hBelow, -⟩ := replaceAt_cons_eq_ok_iff.mp h
    rw [at?_cons, hItem]
    exact ih hBelow

theorem replace_eq_ok_iff {tree value new : InputTree} {path : Path} :
    tree.replace path value = .ok new ↔ replaceAt value path tree = .ok new :=
  mapError_eq_ok_iff

theorem exists_replace_iff {tree value : InputTree} {path : Path} :
    (∃ new, tree.replace path value = .ok new) ↔ ∃ node, tree.at? path = some node := by
  simp only [replace_eq_ok_iff]
  constructor
  · rintro ⟨new, h⟩
    exact exists_at?_of_replaceAt h
  · rintro ⟨node, h⟩
    exact exists_replaceAt_of_at? h value

theorem replace_of_at?_eq_none {tree : InputTree} {path : Path} (h : tree.at? path = none)
    (value : InputTree) : ∃ fault, tree.replace path value = .error ⟨path, fault⟩ := by
  rw [replace]
  cases hReplaced : replaceAt value path tree with
  | error fault => exact ⟨fault, rfl⟩
  | ok new =>
    obtain ⟨node, hNode⟩ := exists_at?_of_replaceAt hReplaced
    cases h.symm.trans hNode

theorem replaceAt_replaceAt {tree other first : InputTree} {path : Path}
    (h : replaceAt other path tree = .ok first) (value : InputTree) :
    replaceAt value path first = replaceAt value path tree := by
  induction path generalizing tree first with
  | nil => rw [replaceAt, replaceAt]
  | cons segment rest ih =>
    obtain ⟨item, below, hItem, hBelow, rfl⟩ := replaceAt_cons_eq_ok_iff.mp h
    have hOverridden : (tree.setChild segment below).setChild segment = tree.setChild segment :=
      funext fun new => setChild_setChild tree below new segment
    rw [replaceAt_cons_of_child (child_setChild_self hItem below), replaceAt_cons_of_child hItem, ih hBelow,
      hOverridden]

theorem replaceAt_join {tree node : InputTree} {p : Path} (h : tree.at? p = some node) (q : Path)
    (value : InputTree) :
    replaceAt value (p.join q) tree = replaceAt value q node >>= fun below => replaceAt below p tree := by
  induction p generalizing tree with
  | nil =>
    cases h
    simp only [replaceAt]
    exact (bind_pure _).symm
  | cons segment rest ih =>
    rw [at?_cons] at h
    obtain ⟨item, hItem, hNode⟩ := Option.bind_eq_some_iff.mp h
    rw [Path.join, List.cons_append, replaceAt_cons_of_child hItem]
    simp only [replaceAt_cons_of_child hItem]
    rw [← Path.join, ih hNode]
    cases replaceAt value q node <;> rfl

theorem replace_join_of_ok {tree node value below : InputTree} {p q : Path} (h : tree.at? p = some node)
    (hBelow : node.replace q value = .ok below) :
    tree.replace (p.join q) value = tree.replace p below := by
  obtain ⟨new, hNew⟩ := exists_replaceAt_of_at? h below
  rw [replace, replaceAt_join h, replace_eq_ok_iff.mp hBelow, ok_bind, replace, hNew]
  rfl

theorem replace_join_of_error {tree node value : InputTree} {p q : Path} {fault : ShapeFault}
    (h : tree.at? p = some node) (hFault : node.replace q value = .error ⟨q, fault⟩) :
    tree.replace (p.join q) value = .error ⟨p.join q, fault⟩ := by
  rw [replace] at hFault ⊢
  rw [replaceAt_join h]
  cases hReplaced : replaceAt value q node with
  | ok below =>
    rw [hReplaced] at hFault
    cases hFault
  | error found =>
    rw [hReplaced] at hFault
    cases hFault
    rfl

/-- The new tree is the old one with the value at the path. -/
structure Replaced (tree : InputTree) (path : Path) (value new : InputTree) : Prop where
  within : ∀ below, new.at? (path.join below) = value.at? below
  apart : ∀ other, path.Apart other → new.at? other = tree.at? other
  above : ∀ above, above <+: path → above ≠ path →
    ∃ old node, tree.at? above = some old ∧ new.at? above = some node ∧ SameFrame old node

theorem replaced_of_replace {tree value new : InputTree} {path : Path}
    (h : tree.replace path value = .ok new) : Replaced tree path value new where
  within := at?_replaceAt_join (replace_eq_ok_iff.mp h)
  apart _ hApart := at?_replaceAt_of_apart hApart (replace_eq_ok_iff.mp h)
  above _ hAbove hProper := sameFrame_replaceAt (replace_eq_ok_iff.mp h) hAbove hProper

theorem replace_laws (tree : InputTree) (p : Path) (value : InputTree) :
    ((∃ new, tree.replace p value = .ok new) ↔ ∃ node, tree.at? p = some node) ∧
    (tree.at? p = none → ∃ fault, tree.replace p value = .error ⟨p, fault⟩) ∧
    (∀ new, tree.replace p value = .ok new → Replaced tree p value new) ∧
    (tree.at? p = some value → tree.replace p value = .ok tree) ∧
    (∀ other first, tree.replace p other = .ok first → first.replace p value = tree.replace p value) ∧
    (∀ q node, tree.at? p = some node →
      (∀ below, node.replace q value = .ok below → tree.replace (p.join q) value = tree.replace p below) ∧
      ∀ fault, node.replace q value = .error ⟨q, fault⟩ →
        tree.replace (p.join q) value = .error ⟨p.join q, fault⟩) ∧
    ∀ inputs : Inputs,
      (∀ new, inputs.replace p value = .ok new ↔
        p ≠ [] ∧ (struct inputs).replace p value = .ok (.struct new)) ∧
      (p ≠ [] → inputs.at? p = (struct inputs).at? p) := by
  refine ⟨exists_replace_iff, ?_, ?_, ?_, ?_, ?_, ?_⟩
  · intro h
    exact replace_of_at?_eq_none h value
  · intro new h
    exact replaced_of_replace h
  · intro h
    exact replace_eq_ok_iff.mpr (replaceAt_self h)
  · intro other first h
    rw [replace, replace, replaceAt_replaceAt (replace_eq_ok_iff.mp h)]
  · intro q node h
    constructor
    · intro below hBelow
      exact replace_join_of_ok h hBelow
    · intro fault hFault
      exact replace_join_of_error h hFault
  · intro inputs
    constructor
    · intro new
      rw [Inputs.replace_eq_ok_iff, replace_eq_ok_iff]
    · intro hPath
      obtain ⟨segment, rest, rfl⟩ := List.exists_cons_of_ne_nil hPath
      exact Inputs.at?_cons inputs segment rest

def samplePoint : InputTree :=
  .struct [("y", .list [.zero, .boolean true]), ("x", .string "no")]

/-- The nodes apart from the replaced one stay, and so do the order of the names and the length. -/
theorem replace_laws_sample :
    samplePoint.replace [.key "y", .index 1] (.boolean false) =
        .ok (.struct [("y", .list [.zero, .boolean false]), ("x", .string "no")]) ∧
      Replaced samplePoint [.key "y", .index 1] (.boolean false)
        (.struct [("y", .list [.zero, .boolean false]), ("x", .string "no")]) ∧
      (∃ fault, samplePoint.replace [.key "y", .index 2] .zero =
        .error ⟨[.key "y", .index 2], fault⟩) := by
  have hNew : samplePoint.replace [.key "y", .index 1] (.boolean false) =
      .ok (.struct [("y", .list [.zero, .boolean false]), ("x", .string "no")]) := rfl
  obtain ⟨-, -, hReplaced, -⟩ := replace_laws samplePoint [.key "y", .index 1] (.boolean false)
  obtain ⟨-, hMissing, -⟩ := replace_laws samplePoint [.key "y", .index 2] .zero
  exact ⟨hNew, hReplaced _ hNew, hMissing rfl⟩

end InputTree

end CircuitForm
