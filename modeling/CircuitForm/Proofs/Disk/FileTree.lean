import CircuitForm.Disk.FileTree
import CircuitForm.Proofs.Entries
import CircuitForm.Proofs.Outcome

/-!
# Files that are written

A path is followed through directories only, so the way to a place stays open when something is put
where there was no directory. A file that has been written is therefore read with its new content, and
every other file with the content that it had.
-/

namespace CircuitForm.FileTree

theorem run_bind {α β : Type} (action : StateM FileTree α) (next : α → StateM FileTree β)
    (files : FileTree) : (action >>= next) files = next (action files).1 (action files).2 := rfl

variable {tree after : FileTree} {place other : List String} {node : FileNode} {path : String}
  {content : Bytes}

theorem node?_set_self (h : place.all (· = "..") = false) : (tree.set place node).node? place = some node := by
  rw [node?, if_neg (by simp [h]), set, List.lookup_append,
    Entries.lookup_filter fun kept : List String => kept ≠ place, if_neg (by simp), Option.none_or,
    List.lookup_cons_self]

theorem node?_set_of_ne (h : other ≠ place) : (tree.set place node).node? other = tree.node? other := by
  have hLookup : (tree.set place node).nodes.lookup other = tree.nodes.lookup other := by
    rw [set, List.lookup_append, Entries.lookup_filter fun kept : List String => kept ≠ place,
      if_pos (decide_eq_true h), Entries.lookup_cons, if_neg h, List.lookup_nil, Option.or_none]
  rw [node?, node?, hLookup]

theorem not_all_of_node? (h : tree.node? place ≠ some .directory) : place.all (· = "..") = false := by
  rw [← Bool.not_eq_true]
  intro hAbove
  exact h (by rw [node?, if_pos hAbove])

/-- Where all directories stay, all ways stay open. -/
theorem walk_of_directories
    (hStay : ∀ place, tree.node? place = some .directory → after.node? place = some .directory)
    {start found components : List String} (h : tree.walk start components = .ok found) :
    after.walk start components = .ok found := by
  induction components generalizing start with
  | nil => exact h
  | cons component rest ih =>
    rw [walk] at h ⊢
    cases hNode : tree.node? start with
    | none =>
      rw [hNode] at h
      cases h
    | some node =>
      rw [hNode] at h
      cases node with
      | file _ => cases h
      | directory =>
        rw [hStay start hNode]
        exact ih h

theorem placeOf_of_directories
    (hStay : ∀ place, tree.node? place = some .directory → after.node? place = some .directory)
    (h : tree.placeOf path = .ok place) : after.placeOf path = .ok place := by
  rw [placeOf] at h ⊢
  split at h
  · cases h
  · rename_i hNamed
    rw [if_neg hNamed]
    exact walk_of_directories hStay h

theorem read_eq_ok_iff : tree.read path = .ok content ↔
    ∃ place, tree.placeOf path = .ok place ∧ tree.node? place = some (.file content) := by
  rw [read, bind_eq_ok_iff]
  constructor
  · rintro ⟨node, hNode, hContent⟩
    obtain ⟨place, hPlace, hFound⟩ := bind_eq_ok_iff.mp hNode
    refine ⟨place, hPlace, ?_⟩
    cases hThere : tree.node? place with
    | none =>
      rw [hThere] at hFound
      cases hFound
    | some there =>
      rw [hThere] at hFound
      cases hFound
      cases node with
      | file _ =>
        cases hContent
        rfl
      | directory => cases hContent
  · rintro ⟨place, hPlace, hNode⟩
    refine ⟨.file content, bind_eq_ok_iff.mpr ⟨place, hPlace, ?_⟩, rfl⟩
    rw [hNode]

theorem write_eq_ok_iff : tree.write path content = .ok after ↔ path.endsWith '/' = false ∧
    ∃ place, tree.placeOf path = .ok place ∧ tree.node? place ≠ some .directory ∧
      tree.set place (.file content) = after := by
  rw [write, bind_eq_ok_iff]
  cases hSlash : path.endsWith '/' with
  | true =>
    refine iff_of_false ?_ nofun
    rintro ⟨place, -, hAfter⟩
    split at hAfter <;> simp at hAfter
  | false =>
    simp only [Bool.false_eq_true, if_false, true_and]
    refine exists_congr fun place => and_congr_right fun _ => ?_
    cases hNode : tree.node? place with
    | none => simp
    | some node => cases node <;> simp

theorem makeDirectory_eq_ok_iff : tree.makeDirectory path = .ok after ↔
    ∃ place, tree.placeOf path = .ok place ∧ tree.node? place = none ∧ tree.set place .directory = after := by
  rw [makeDirectory, bind_eq_ok_iff]
  refine exists_congr fun place => and_congr_right fun _ => ?_
  cases tree.node? place <;> simp

/-- What is put where there is no directory leaves all directories. -/
theorem directory_set (h : tree.node? place ≠ some .directory) {found : List String}
    (hFound : tree.node? found = some .directory) : (tree.set place node).node? found = some .directory := by
  have hOther : found ≠ place := fun hSame => h (hSame ▸ hFound)
  rw [node?_set_of_ne hOther, hFound]

theorem read_write (h : tree.write path content = .ok after) : after.read path = .ok content := by
  obtain ⟨-, place, hPlace, hNode, rfl⟩ := write_eq_ok_iff.mp h
  refine read_eq_ok_iff.mpr ⟨place, ?_, node?_set_self (not_all_of_node? hNode)⟩
  exact placeOf_of_directories (fun _ => directory_set hNode) hPlace

/-- A path to another file still leads there; one to the file that was written leads to its new content. -/
theorem read_of_write (h : tree.write path content = .ok after) {elsewhere : String} {found : Bytes}
    (hFound : tree.read elsewhere = .ok found) :
    after.read elsewhere = .ok found ∨ after.placeOf elsewhere = after.placeOf path := by
  obtain ⟨-, place, hPlace, hNode, rfl⟩ := write_eq_ok_iff.mp h
  obtain ⟨there, hThere, hFile⟩ := read_eq_ok_iff.mp hFound
  have hStill : (tree.set place (.file content)).placeOf elsewhere = .ok there :=
    placeOf_of_directories (fun _ => directory_set hNode) hThere
  by_cases hSame : there = place
  · right
    rw [hStill, hSame, placeOf_of_directories (fun _ => directory_set hNode) hPlace]
  · left
    exact read_eq_ok_iff.mpr ⟨there, hStill, by rw [node?_set_of_ne hSame, hFile]⟩

/-- Everything is where it was. -/
def Extends (tree after : FileTree) : Prop :=
  ∀ place node, tree.node? place = some node → after.node? place = some node

theorem Extends.refl (tree : FileTree) : Extends tree tree :=
  fun _ _ h => h

theorem Extends.trans {last : FileTree} (h : Extends tree after) (hLast : Extends after last) :
    Extends tree last :=
  fun place node hNode => hLast place node (h place node hNode)

theorem Extends.read (h : Extends tree after) (hRead : tree.read path = .ok content) :
    after.read path = .ok content := by
  obtain ⟨place, hPlace, hNode⟩ := read_eq_ok_iff.mp hRead
  exact read_eq_ok_iff.mpr ⟨place, placeOf_of_directories (fun place => h place _) hPlace, h place _ hNode⟩

theorem extends_makeDirectory (h : tree.makeDirectory path = .ok after) : Extends tree after := by
  obtain ⟨place, -, hNode, rfl⟩ := makeDirectory_eq_ok_iff.mp h
  intro there node hThere
  rw [node?_set_of_ne, hThere]
  rintro rfl
  cases hNode.symm.trans hThere

end CircuitForm.FileTree
