import Mathlib.Data.List.Induction
import CircuitForm.Proofs.Disk.FileTree

/-!
# Directories that are made

A path that is a row of names is taken apart into them again. If none of the directories that it goes
through is a file, those that are missing can be made one below the other, which changes nothing else,
and then a file can be written there.
-/

namespace CircuitForm

namespace Disk

/-- A name of an entry in a directory, and of nothing else. -/
def IsName (name : String) : Prop :=
  name ≠ "" ∧ name ≠ "." ∧ name ≠ ".." ∧ '/' ∉ name.toList

variable {names : List String}

theorem toList_ofComponents (names : List String) :
    (ofComponents false names).toList = ['/'].intercalate (names.map String.toList) := by
  simp [ofComponents]

theorem split_ofComponents (hNames : ∀ name ∈ names, IsName name) (hSome : names ≠ []) :
    split (ofComponents false names) = names := by
  have hSlash : ∀ name ∈ names.map String.toList, '/' ∉ name := by
    rw [List.forall_mem_map]
    exact fun name hName => (hNames name hName).2.2.2
  rw [split, toList_ofComponents, List.splitOn_intercalate '/' hSlash (by simpa using hSome), List.map_map]
  simp

/-- A slash in front or at the end of a path sets off an empty component. -/
theorem mem_split_of_slash {path : String} {front back : List Char} (hPath : path.toList = front ++ '/' :: back)
    (hEnd : front = [] ∨ back = []) : "" ∈ split path := by
  rw [split, hPath, List.splitOn_append_cons_self, List.map_append, List.mem_append]
  rcases hEnd with rfl | rfl <;> simp

theorem isAbsolute_ofComponents (hNames : ∀ name ∈ names, IsName name) :
    isAbsolute (ofComponents false names) = false := by
  rw [← Bool.not_eq_true, isAbsolute, String.startsWith_string_iff]
  rintro ⟨back, hBack⟩
  have hPath : (ofComponents false names).toList = [] ++ '/' :: back := hBack.symm
  have hEmpty := mem_split_of_slash hPath (.inl rfl)
  cases names with
  | nil => simp [ofComponents] at hBack
  | cons name rest =>
    rw [split_ofComponents hNames (List.cons_ne_nil _ _)] at hEmpty
    exact (hNames "" hEmpty).1 rfl

theorem endsWith_ofComponents (hNames : ∀ name ∈ names, IsName name) (hSome : names ≠ []) :
    (ofComponents false names).endsWith '/' = false := by
  rw [← Bool.not_eq_true, String.endsWith_char_iff_exists_append]
  rintro ⟨front, hFront⟩
  have hPath : (ofComponents false names).toList = front.toList ++ '/' :: [] := by simp [hFront]
  have hEmpty := mem_split_of_slash hPath (.inr rfl)
  rw [split_ofComponents hNames hSome] at hEmpty
  exact (hNames "" hEmpty).1 rfl

theorem isEmpty_ofComponents (hNames : ∀ name ∈ names, IsName name) (hSome : names ≠ []) :
    (ofComponents false names).isEmpty = false := by
  rw [← Bool.not_eq_true, String.isEmpty_iff]
  intro hEmpty
  have hSplit := split_ofComponents hNames hSome
  rw [hEmpty] at hSplit
  have hName : "" ∈ names := by
    rw [← hSplit]
    decide
  exact (hNames "" hName).1 rfl

theorem components_ofComponents (hNames : ∀ name ∈ names, IsName name) :
    components (ofComponents false names) = names := by
  cases names with
  | nil => decide
  | cons name rest =>
    have hFirst := (hNames name List.mem_cons_self).2.1
    have hAll : ∀ c ∈ name :: rest, c ≠ "" ∧ c ≠ "." := fun c hc => ⟨(hNames c hc).1, (hNames c hc).2.1⟩
    rw [components, split_ofComponents hNames (List.cons_ne_nil _ _)]
    split
    · rename_i hDot
      exact absurd (List.cons.inj hDot).1 hFirst
    · exact List.filter_eq_self.mpr fun c hc => decide_eq_true (hAll c hc)

theorem parent?_ofComponents {front : List String} {name : String}
    (hNames : ∀ other ∈ front ++ [name], IsName other) :
    parent? (ofComponents false (front ++ [name])) = some (ofComponents false front) := by
  rw [parent?, components_ofComponents hNames, isAbsolute_ofComponents hNames]
  simp

end Disk

namespace FileTree

open Disk

variable {tree after : FileTree} {names : List String}

theorem placeOf_ofComponents (hNames : ∀ name ∈ names, IsName name) (hSome : names ≠ []) :
    tree.placeOf (ofComponents false names) = tree.walk [] names := by
  rw [placeOf, isEmpty_ofComponents hNames hSome, isAbsolute_ofComponents hNames,
    split_ofComponents hNames hSome]
  rfl

theorem step_of_isName {name : String} (h : IsName name) (place : List String) : step place name = place ++ [name] := by
  obtain ⟨hEmpty, hHere, hAbove, -⟩ := h
  rw [step, if_neg (by simp [hEmpty, hHere]), if_neg (by simp [hAbove])]

theorem walk_append (start front back : List String) :
    tree.walk start (front ++ back) = tree.walk start front >>= fun place => tree.walk place back := by
  induction front generalizing start with
  | nil => rfl
  | cons name rest ih =>
    rw [List.cons_append, walk, walk]
    cases tree.node? start with
    | none => rfl
    | some node =>
      cases node with
      | file _ => rfl
      | directory => exact ih (step start name)

/-- All that a way goes through is there. -/
def Leads (tree : FileTree) (way : List String) : Prop :=
  ∀ front, front <+: way → tree.node? front = some .directory

/-- A way may end early, but not at a file. -/
def Unblocked (tree : FileTree) (way : List String) : Prop :=
  ∀ front, front <+: way → ∀ content, tree.node? front ≠ some (.file content)

variable {above : List String} {name : String}

theorem leads_nil (tree : FileTree) : tree.Leads [] := by
  intro front hFront
  rw [List.prefix_nil.mp hFront]
  rfl

theorem leads_concat_iff :
    tree.Leads (above ++ [name]) ↔ tree.Leads above ∧ tree.node? (above ++ [name]) = some .directory := by
  simp [Leads, List.prefix_concat_iff, or_imp, forall_and, and_comm]

theorem unblocked_concat_iff : tree.Unblocked (above ++ [name]) ↔
    tree.Unblocked above ∧ ∀ content, tree.node? (above ++ [name]) ≠ some (.file content) := by
  simp [Unblocked, List.prefix_concat_iff, or_imp, forall_and, and_comm]

theorem walk_of_leads (hNames : ∀ other ∈ above ++ [name], IsName other) (hLeads : tree.Leads above) :
    tree.walk [] (above ++ [name]) = .ok (above ++ [name]) := by
  induction above using List.reverseRecOn generalizing name with
  | nil =>
    have hHere := hLeads [] List.prefix_rfl
    rw [List.nil_append, walk, hHere]
    exact congrArg Except.ok (step_of_isName (hNames name (by simp)) [])
  | append_singleton above last ih =>
    obtain ⟨hAbove, hLast⟩ := leads_concat_iff.mp hLeads
    rw [walk_append, ih (List.forall_mem_append.mp hNames).1 hAbove]
    change tree.walk (above ++ [last]) [name] = _
    rw [walk, hLast]
    exact congrArg Except.ok (step_of_isName (hNames name (by simp)) _)

theorem walk_of_missing (hNames : ∀ other ∈ above ++ [name], IsName other) (hOpen : tree.Unblocked above)
    (hMissing : ¬ tree.Leads above) : tree.walk [] (above ++ [name]) = .error .notFound := by
  induction above using List.reverseRecOn generalizing name with
  | nil => exact absurd (leads_nil tree) hMissing
  | append_singleton above last ih =>
    have hShorter := (List.forall_mem_append.mp hNames).1
    obtain ⟨hAbove, hLast⟩ := unblocked_concat_iff.mp hOpen
    by_cases hLeads : tree.Leads above
    · -- Then it is the last directory that is missing.
      rw [walk_append, walk_of_leads hShorter hLeads]
      change tree.walk (above ++ [last]) [name] = _
      rw [walk]
      cases hNode : tree.node? (above ++ [last]) with
      | none => rfl
      | some node =>
        cases node with
        | file content => exact absurd hNode (hLast content)
        | directory => exact absurd (leads_concat_iff.mpr ⟨hLeads, hNode⟩) hMissing
    · rw [walk_append, ih hShorter hAbove hLeads]
      rfl

theorem placeOf_of_leads (hNames : ∀ other ∈ above ++ [name], IsName other) (hLeads : tree.Leads above) :
    tree.placeOf (ofComponents false (above ++ [name])) = .ok (above ++ [name]) := by
  rw [placeOf_ofComponents hNames (by simp), walk_of_leads hNames hLeads]

theorem find_of_placeOf {path : String} {place : List String} (h : tree.placeOf path = .ok place) :
    tree.find path = match tree.node? place with
      | some node => .ok node
      | none => .error .notFound := by
  rw [find, h]
  rfl

theorem makeDirectory_of_placeOf {path : String} {place : List String} (h : tree.placeOf path = .ok place) :
    tree.makeDirectory path = match tree.node? place with
      | some _ => .error .alreadyPresent
      | none => .ok (tree.set place .directory) := by
  rw [makeDirectory, h]
  rfl

/-- Makes a directory, or finds it there. -/
def ensure (tree : FileTree) (path : String) : Except DiskFault Unit × FileTree :=
  match tree.makeDirectory path with
  | .ok made => (.ok (), made)
  | .error fault => (if tree.isDirectory path then .ok () else .error fault, tree)

theorem run_makeDirectory (path : String) (files : FileTree) :
    (Disk.makeDirectory path : StateM FileTree (Except DiskFault Unit)) files =
      match files.makeDirectory path with
      | .ok made => (.ok (), made)
      | .error fault => (.error fault, files) := rfl

theorem run_makeAll (absolute : Bool) (name : String) (above : List String) (files : FileTree) :
    (makeAll absolute (name :: above) : StateM FileTree (Except DiskFault Unit)) files =
      match files.makeDirectory (ofComponents absolute (name :: above).reverse) with
      | .error .notFound =>
        match (makeAll absolute above : StateM FileTree (Except DiskFault Unit)) files with
        | (.ok (), made) => made.ensure (ofComponents absolute (name :: above).reverse)
        | (.error fault, made) => (.error fault, made)
      | _ => files.ensure (ofComponents absolute (name :: above).reverse) := by
  rw [makeAll]
  generalize ofComponents absolute (name :: above).reverse = path
  rw [run_bind, run_makeDirectory, ensure]
  cases files.makeDirectory path with
  | ok made => rfl
  | error fault =>
    cases fault with
    | notFound =>
      dsimp only
      rw [run_bind]
      generalize (makeAll absolute above : StateM FileTree (Except DiskFault Unit)) files = result
      obtain ⟨fault | ⟨⟩, made⟩ := result
      · rfl
      · dsimp only
        rw [run_bind, run_makeDirectory, ensure]
        cases made.makeDirectory path <;> rfl
    | denied | alreadyPresent | notDirectory | isDirectory | other _ => rfl

/-- Nothing is lost when directories are made, even if not all of them can be. -/
theorem extends_ensure (tree : FileTree) (path : String) : Extends tree (tree.ensure path).2 := by
  rw [ensure]
  cases hMade : tree.makeDirectory path with
  | ok made => exact extends_makeDirectory hMade
  | error fault => exact .refl tree

theorem extends_makeAll (absolute : Bool) (above : List String) (files : FileTree) :
    Extends files ((makeAll absolute above : StateM FileTree (Except DiskFault Unit)) files).2 := by
  induction above with
  | nil => exact .refl files
  | cons name rest ih =>
    rw [run_makeAll]
    split
    · split
      · rename_i made hRest
        rw [hRest] at ih
        exact ih.trans (extends_ensure made _)
      · rename_i fault made hRest
        rw [hRest] at ih
        exact ih
    · exact extends_ensure files _

theorem ensure_names (hNames : ∀ other ∈ above ++ [name], IsName other) (hLeads : tree.Leads above)
    (hHere : ∀ content, tree.node? (above ++ [name]) ≠ some (.file content)) :
    ∃ made, tree.ensure (ofComponents false (above ++ [name])) = (.ok (), made) ∧
      ∀ place, made.node? place = if place = above ++ [name] then some .directory else tree.node? place := by
  have hPlace := placeOf_of_leads hNames hLeads
  cases hNode : tree.node? (above ++ [name]) with
  | none =>
    have hMade := makeDirectory_eq_ok_iff.mpr ⟨_, hPlace, hNode, rfl⟩
    have hNone : tree.node? (above ++ [name]) ≠ some .directory := by
      rw [hNode]
      nofun
    refine ⟨_, by rw [ensure, hMade], fun place => ?_⟩
    split
    · rename_i hSame
      rw [hSame, node?_set_self (not_all_of_node? hNone)]
    · rename_i hOther
      exact node?_set_of_ne hOther
  | some node =>
    cases node with
    | file content => exact absurd hNode (hHere content)
    | directory =>
      refine ⟨tree, ?_, fun place => ?_⟩
      · have hMade : tree.makeDirectory (ofComponents false (above ++ [name])) = .error .alreadyPresent := by
          rw [makeDirectory_of_placeOf hPlace, hNode]
        have hThere : tree.isDirectory (ofComponents false (above ++ [name])) = true := by
          rw [isDirectory, find_of_placeOf hPlace, hNode]
        rw [ensure, hMade, hThere]
        rfl
      · split
        · rename_i hSame
          rw [hSame, hNode]
        · rfl

theorem not_prefix_concat (above : List String) (name : String) : ¬ above ++ [name] <+: above := by
  intro hPrefix
  have hLength := hPrefix.length_le
  rw [List.length_append, List.length_singleton] at hLength
  omega

theorem makeAll_concat (above : List String) (name : String) (tree : FileTree) :
    (makeAll false (above ++ [name]).reverse : StateM FileTree (Except DiskFault Unit)) tree =
      match tree.makeDirectory (ofComponents false (above ++ [name])) with
      | .error .notFound =>
        match (makeAll false above.reverse : StateM FileTree (Except DiskFault Unit)) tree with
        | (.ok (), made) => made.ensure (ofComponents false (above ++ [name]))
        | (.error fault, made) => (.error fault, made)
      | _ => tree.ensure (ofComponents false (above ++ [name])) := by
  have hReverse : (above ++ [name]).reverse = name :: above.reverse := by simp
  have hBack : (name :: above.reverse).reverse = above ++ [name] := by simp
  rw [hReverse, run_makeAll, hBack]

theorem makeAll_of_leads (hNames : ∀ other ∈ above ++ [name], IsName other) (hLeads : tree.Leads above) :
    (makeAll false (above ++ [name]).reverse : StateM FileTree (Except DiskFault Unit)) tree =
      tree.ensure (ofComponents false (above ++ [name])) := by
  rw [makeAll_concat, makeDirectory_of_placeOf (placeOf_of_leads hNames hLeads)]
  cases tree.node? (above ++ [name]) <;> rfl

theorem makeAll_of_missing (hNames : ∀ other ∈ above ++ [name], IsName other) (hOpen : tree.Unblocked above)
    (hMissing : ¬ tree.Leads above) {made : FileTree}
    (hMade : (makeAll false above.reverse : StateM FileTree (Except DiskFault Unit)) tree = (.ok (), made)) :
    (makeAll false (above ++ [name]).reverse : StateM FileTree (Except DiskFault Unit)) tree =
      made.ensure (ofComponents false (above ++ [name])) := by
  have hFault : tree.makeDirectory (ofComponents false (above ++ [name])) = .error .notFound := by
    rw [makeDirectory, placeOf_ofComponents hNames (by simp), walk_of_missing hNames hOpen hMissing]
    rfl
  rw [makeAll_concat, hFault, hMade]

/-- An unblocked way is completed, and nothing else is changed. -/
theorem makeAll_names (hNames : ∀ other ∈ names, IsName other) (hOpen : tree.Unblocked names) :
    ∃ made, (makeAll false names.reverse : StateM FileTree (Except DiskFault Unit)) tree = (.ok (), made) ∧
      ∀ place, made.node? place = if place <+: names then some .directory else tree.node? place := by
  have hComplete : ∀ way, tree.Leads way → ∀ place,
      tree.node? place = if place <+: way then some .directory else tree.node? place := by
    intro way hLeads place
    split
    · exact hLeads place ‹_›
    · rfl
  induction names using List.reverseRecOn with
  | nil => exact ⟨tree, rfl, hComplete [] (leads_nil tree)⟩
  | append_singleton above name ih =>
    have hHigher := (List.forall_mem_append.mp hNames).1
    obtain ⟨hAbove, hHere⟩ := unblocked_concat_iff.mp hOpen
    obtain ⟨higher, hRun, hNode⟩ : ∃ higher : FileTree, (makeAll false (above ++ [name]).reverse :
        StateM FileTree (Except DiskFault Unit)) tree = higher.ensure (ofComponents false (above ++ [name])) ∧
          ∀ place, higher.node? place = if place <+: above then some .directory else tree.node? place := by
      by_cases hLeads : tree.Leads above
      · exact ⟨tree, makeAll_of_leads hNames hLeads, hComplete above hLeads⟩
      · obtain ⟨higher, hMade, hNode⟩ := ih hHigher hAbove
        exact ⟨higher, makeAll_of_missing hNames hAbove hLeads hMade, hNode⟩
    have hVacant : ∀ content, higher.node? (above ++ [name]) ≠ some (.file content) := by
      rw [hNode, if_neg (not_prefix_concat above name)]
      exact hHere
    have hLeads : higher.Leads above := by
      intro front hFront
      rw [hNode, if_pos hFront]
    obtain ⟨made, hMade, hNodeMade⟩ := ensure_names hNames hLeads hVacant
    refine ⟨made, hRun.trans hMade, fun place => ?_⟩
    rw [hNodeMade, hNode]
    simp only [List.prefix_concat_iff]
    split_ifs <;> simp_all

/-- The path is a row of names, which leads to no directory and not through a file. -/
inductive Free (tree : FileTree) : String → Prop where
  | names {above : List String} {name : String} (hNames : ∀ other ∈ above ++ [name], IsName other)
      (hAbove : tree.Unblocked above) (hHere : tree.node? (above ++ [name]) ≠ some .directory) :
      Free tree (ofComponents false (above ++ [name]))

/-- At a free path a file can be written, once the directories above it have been made. -/
theorem Free.exists_write {path : String} (h : tree.Free path) (content : Bytes) :
    ∃ parent made after, parent? path = some parent ∧
      (makeDirectories parent : StateM FileTree (Except DiskFault Unit)) tree = (.ok (), made) ∧
      made.write path content = .ok after := by
  cases h with
  | @names above name hNames hAbove hHere =>
    have hHigher := (List.forall_mem_append.mp hNames).1
    obtain ⟨made, hMade, hNode⟩ := makeAll_names hHigher hAbove
    have hLeads : made.Leads above := by
      intro front hFront
      rw [hNode, if_pos hFront]
    have hVacant : made.node? (above ++ [name]) ≠ some .directory := by
      rw [hNode, if_neg (not_prefix_concat above name)]
      exact hHere
    have hSlash := endsWith_ofComponents hNames (by simp)
    have hPlace := placeOf_of_leads hNames hLeads
    refine ⟨_, made, _, parent?_ofComponents hNames, ?_, write_eq_ok_iff.mpr ⟨hSlash, _, hPlace, hVacant, rfl⟩⟩
    rw [makeDirectories, isAbsolute_ofComponents hHigher, components_ofComponents hHigher, hMade]

end FileTree

end CircuitForm
