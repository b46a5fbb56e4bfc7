import CircuitForm.Input.Check
import CircuitForm.Proofs.Input.Fits
import CircuitForm.Proofs.Input.Literal

/-!
# What a check gives

A literal that is coerced becomes a tree that fits the descriptor. A tree that fits already is
coerced to itself, at any place and whatever errors were found before.
-/

namespace CircuitForm

open InputTree (Fits)

theorem fits_of_scalarOf {type : Descriptor} {literal : Literal} {tree : InputTree}
    (h : scalarOf type literal = .ok tree) : tree.Fits type := by
  revert h
  fun_cases scalarOf type literal
  case case1 | case4 => rintro ⟨⟩; trivial
  case case2 | case5 | case7 | case8 => rintro ⟨⟩
  case case3 sign width n hSign =>
    rintro ⟨⟩
    cases sign with
    | signed => trivial
    | unsigned => simpa [Fits] using hSign
  case case6 => rintro ⟨⟩; simp [Fits]

theorem forall₂_of_coerceEach
    {coerceItem : Literal → Path → List InputError → Option InputTree × List InputError}
    {path : Path} {index : Nat} {items : List Literal} {errors : List InputError}
    {trees : List InputTree} (h : (coerceEach coerceItem path index items errors).1 = some trees) :
    List.Forall₂ (fun tree item => ∃ path errors, (coerceItem item path errors).1 = some tree)
      trees items := by
  induction items generalizing index errors trees with
  | nil => cases h; exact .nil
  | cons item rest ih =>
    rw [coerceEach] at h
    obtain ⟨first, hFirst, hRest⟩ := Option.bind_eq_some_iff.mp h
    obtain ⟨more, hMore, hTrees⟩ := Option.bind_eq_some_iff.mp hRest
    cases hTrees
    exact .cons ⟨_, _, hFirst⟩ (ih hMore)

/-- The literal becomes the tree, at some place and whatever errors were found before. -/
def Coerces (type : Descriptor) (literal : Literal) (tree : InputTree) : Prop :=
  ∃ path errors, (coerce type literal path errors).1 = some tree

theorem forall₂_of_coerceElements {types : List Descriptor} {path : Path} {index : Nat}
    {items : List Literal} {errors : List InputError} {trees : List InputTree}
    (hLength : items.length = types.length)
    (h : (coerceElements types path index items errors).1 = some trees) :
    List.Forall₂ (fun tree pair => Coerces pair.1 pair.2 tree) trees (types.zip items) := by
  induction types generalizing index items errors trees with
  | nil =>
    cases List.length_eq_zero_iff.mp hLength
    cases h
    exact .nil
  | cons type types ih =>
    cases items with
    | nil => cases hLength
    | cons item rest =>
      rw [coerceElements] at h
      obtain ⟨first, hFirst, hRest⟩ := Option.bind_eq_some_iff.mp h
      obtain ⟨more, hMore, hTrees⟩ := Option.bind_eq_some_iff.mp hRest
      cases hTrees
      exact .cons ⟨_, _, hFirst⟩ (ih (by simpa using hLength) hMore)

/-- Each new entry has the declared name and comes from the literal that is found under it. -/
theorem forall₂_of_coerceFields {fields : Entries Descriptor} {literals : Entries Literal}
    {path : Path} {built trees : Entries InputTree} {errors : List InputError}
    (hNames : (built.names ++ fields.names).Nodup)
    (h : (coerceFields fields literals path built errors).1 = some trees) :
    ∃ new, trees = built ++ new ∧ List.Forall₂ (fun entry field => entry.1 = field.1 ∧
      ∃ literal, literals.lookup field.1 = some literal ∧ Coerces field.2 literal entry.2) new fields := by
  induction fields generalizing built errors with
  | nil => cases h; exact ⟨[], (List.append_nil _).symm, .nil⟩
  | cons field rest ih =>
    obtain ⟨name, type⟩ := field
    have hFresh : name ∉ built.names := by
      intro hMember
      exact (List.nodup_append.mp hNames).2.2 name hMember name List.mem_cons_self rfl
    rw [coerceFields] at h
    split at h
    · cases h
    · rename_i literal hLiteral
      split at h
      · rename_i tree _ hTree
        rw [Entries.insert_of_not_mem _ hFresh] at h
        obtain ⟨new, rfl, hNew⟩ := ih (by simpa using hNames) h
        exact ⟨(name, tree) :: new, by simp,
          .cons ⟨rfl, literal, hLiteral, _, errors, congrArg Prod.fst hTree⟩ hNew⟩
      · cases h

theorem coerce_scalar {type : Descriptor} (hScalar : type.isScalar = true) (literal : Literal)
    (path : Path) (errors : List InputError) :
    coerce type literal path errors =
      match scalarOf type literal with
      | .ok tree => (some tree, errors)
      | .error fault => (none, errors ++ [⟨path, fault⟩]) := by
  cases type with
  | field | boolean | string _ | integer _ _ =>
    unfold coerce
    cases literal <;> rfl
  | array _ _ | tuple _ | struct _ _ => cases hScalar

theorem fieldSetError?_eq_none_iff {path : Path} {declared : List String} {entries : Entries Literal} :
    fieldSetError? path declared entries = none ↔
      (∀ name ∈ declared, name ∈ entries.names) ∧ ∀ name ∈ entries.names, name ∈ declared := by
  simp [fieldSetError?]

theorem exists_list_of_coerces_array {length : Nat} {element : Descriptor} {literal : Literal}
    {tree : InputTree} (h : Coerces (.array length element) literal tree) :
    ∃ items trees, literal = .array items ∧ tree = .list trees ∧ items.length = length ∧
      List.Forall₂ (fun tree item => Coerces element item tree) trees items := by
  obtain ⟨path, errors, h⟩ := h
  cases literal with
  | array items =>
    rw [coerce] at h
    split at h
    · rename_i hLength
      obtain ⟨trees, hTrees, rfl⟩ := Option.map_eq_some_iff.mp h
      exact ⟨items, trees, rfl, rfl, hLength, forall₂_of_coerceEach hTrees⟩
    · cases h
  | number _ | boolean _ | string _ | object _ => simp [coerce, scalarOf] at h

theorem exists_list_of_coerces_tuple {elements : List Descriptor} {literal : Literal}
    {tree : InputTree} (h : Coerces (.tuple elements) literal tree) :
    ∃ items trees, literal = .array items ∧ tree = .list trees ∧ items.length = elements.length ∧
      List.Forall₂ (fun tree pair => Coerces pair.1 pair.2 tree) trees (elements.zip items) := by
  obtain ⟨path, errors, h⟩ := h
  cases literal with
  | array items =>
    rw [coerce] at h
    split at h
    · rename_i hLength
      obtain ⟨trees, hTrees, rfl⟩ := Option.map_eq_some_iff.mp h
      exact ⟨items, trees, rfl, rfl, hLength, forall₂_of_coerceElements hLength hTrees⟩
    · cases h
  | number _ | boolean _ | string _ | object _ => simp [coerce, scalarOf] at h

theorem exists_struct_of_coerces {declared : String} {fields : Entries Descriptor}
    (hDistinct : fields.Distinct) {literal : Literal} {tree : InputTree}
    (h : Coerces (.struct declared fields) literal tree) :
    ∃ (entries : Entries Literal) (trees : Entries InputTree),
      literal = .object entries ∧ tree = .struct trees ∧
      (∀ name, name ∈ fields.names ↔ name ∈ entries.names) ∧
      List.Forall₂ (fun entry field => entry.1 = field.1 ∧
        ∃ literal, entries.lookup field.1 = some literal ∧ Coerces field.2 literal entry.2)
        trees fields := by
  obtain ⟨path, errors, h⟩ := h
  cases literal with
  | object entries =>
    rw [coerce] at h
    split at h
    · cases h
    · rename_i hSet
      obtain ⟨trees, hTrees, rfl⟩ := Option.map_eq_some_iff.mp h
      obtain ⟨new, rfl, hNew⟩ := forall₂_of_coerceFields (by simpa [Entries.Distinct] using hDistinct) hTrees
      obtain ⟨hMissing, hUnexpected⟩ := fieldSetError?_eq_none_iff.mp hSet
      exact ⟨entries, trees, rfl, rfl, fun name => ⟨hMissing name, hUnexpected name⟩, hNew⟩
  | number _ | boolean _ | string _ | array _ => simp [coerce, scalarOf] at h

theorem scalarOf_of_coerces {type : Descriptor} (hScalar : type.isScalar = true) {literal : Literal}
    {tree : InputTree} (h : Coerces type literal tree) : scalarOf type literal = .ok tree := by
  obtain ⟨path, errors, h⟩ := h
  rw [coerce_scalar hScalar] at h
  split at h
  · rename_i hTree
    cases h
    exact hTree
  · cases h

theorem Coerces.fits {type : Descriptor} (hNames : type.DistinctNames) {literal : Literal}
    {tree : InputTree} (h : Coerces type literal tree) : tree.Fits type := by
  induction type generalizing literal tree with
  | field | boolean | string _ | integer _ _ => exact fits_of_scalarOf (scalarOf_of_coerces rfl h)
  | array length element ih =>
    obtain ⟨items, trees, -, rfl, hLength, hItems⟩ := exists_list_of_coerces_array h
    have hFits := hItems.imp (S := fun tree _ => Fits tree element ∧ True)
      fun tree item hTree => ⟨ih hNames hTree, trivial⟩
    exact ⟨hItems.length_eq.trans hLength, ((List.forall₂_and_left _ _).mp hFits).1⟩
  | tuple elements ih =>
    obtain ⟨items, trees, -, rfl, hLength, hItems⟩ := exists_list_of_coerces_tuple h
    have hElements := Descriptor.distinctNames_tuple_iff.mp hNames
    have hTypes : (elements.zip items).map Prod.fst = elements := List.map_fst_zip (by omega)
    rw [InputTree.fits_tuple_iff, ← hTypes, List.forall₂_map_right_iff]
    refine Entries.forall₂_imp_of_mem hItems fun tree _ pair hPair hTree => ?_
    have hType : pair.1 ∈ elements := hTypes ▸ List.mem_map_of_mem hPair
    exact ih pair.1 hType (hElements pair.1 hType) hTree
  | struct declared fields ih =>
    obtain ⟨hDistinct, hFields⟩ := Descriptor.distinctNames_struct_iff.mp hNames
    obtain ⟨entries, trees, -, rfl, -, hTrees⟩ := exists_struct_of_coerces hDistinct h
    refine InputTree.fits_struct_iff.mpr (Entries.forall₂_imp_of_mem hTrees ?_)
    rintro entry - field hField ⟨hName, literal, -, hTree⟩
    exact ⟨hName, ih field hField (hFields field hField) hTree⟩

theorem typecheck_eq_ok_iff {type : Descriptor} {literal : Literal} {tree : InputTree} :
    typecheck type literal = .ok tree ↔ coerce type literal [] [] = (some tree, []) := by
  rw [typecheck]
  rcases coerce type literal [] [] with ⟨_ | value, _ | ⟨error, errors⟩⟩ <;> simp

theorem coerces_of_typecheck {type : Descriptor} {literal : Literal} {tree : InputTree}
    (h : typecheck type literal = .ok tree) : Coerces type literal tree :=
  ⟨[], [], congrArg Prod.fst (typecheck_eq_ok_iff.mp h)⟩

theorem fits_of_typecheck {type : Descriptor} (hNames : type.DistinctNames) {literal : Literal}
    {tree : InputTree} (h : typecheck type literal = .ok tree) : tree.Fits type :=
  (coerces_of_typecheck h).fits hNames

theorem firstError_eq_ok_iff {result : Except (List InputError) InputTree} {tree : InputTree} :
    firstError result = .ok tree ↔ result = .ok tree := by
  match result with
  | .ok _ => simp [firstError]
  | .error [] => simp [firstError]
  | .error (_ :: _) => simp [firstError]

theorem exists_literal_of_check {type : Descriptor} {raw : String} {tree : InputTree}
    (h : check type raw = .ok tree) : ∃ literal, typecheck type literal = .ok tree := by
  have hAll : checkAll type raw = .ok tree := firstError_eq_ok_iff.mp h
  rw [checkAll] at hAll
  split at hAll
  · exact ⟨_, hAll⟩
  · cases hAll

theorem scalarOf_ofTree {type : Descriptor} (hScalar : type.isScalar = true) {tree : InputTree}
    (h : tree.Fits type) : scalarOf type (.ofTree tree) = .ok tree := by
  cases type with
  | field => cases tree <;> simp [Fits] at h; rfl
  | boolean => cases tree <;> simp [Fits] at h; rfl
  | string length => cases tree <;> simp [Fits] at h; simp [Literal.ofTree, scalarOf, h]
  | integer sign width =>
    cases sign with
    | signed => cases tree <;> simp [Fits] at h; rfl
    | unsigned => cases tree <;> simp [Fits] at h; simp [Literal.ofTree, scalarOf, h]
  | array _ _ | tuple _ | struct _ _ => cases hScalar

/-- A check gives the tree back as it is, at any place and whatever errors were found before. -/
def Kept (tree : InputTree) (type : Descriptor) : Prop :=
  ∀ path errors, coerce type (.ofTree tree) path errors = (some tree, errors)

theorem coerceEach_ofTrees {element : Descriptor} {items : List InputTree}
    (h : ∀ item ∈ items, Kept item element) (path : Path) (index : Nat) (errors : List InputError) :
    coerceEach (coerce element) path index (Literal.ofTrees items) errors = (some items, errors) := by
  induction items generalizing index with
  | nil => rfl
  | cons item rest ih =>
    have hRest := ih (fun item hItem => h item (List.mem_cons_of_mem _ hItem)) (index + 1)
    rw [Literal.ofTrees, coerceEach, h item List.mem_cons_self]
    simp [hRest]

theorem coerceElements_ofTrees {items : List InputTree} {types : List Descriptor}
    (h : List.Forall₂ Kept items types) (path : Path) (index : Nat) (errors : List InputError) :
    coerceElements types path index (Literal.ofTrees items) errors = (some items, errors) := by
  induction h generalizing index with
  | nil => rfl
  | cons hHead _ ih =>
    rw [Literal.ofTrees, coerceElements, hHead]
    simp [ih (index + 1)]

/-- The fields still to come are looked up among the literals of all of them. -/
theorem coerceFields_ofFields {front back : Entries InputTree} {fields : Entries Descriptor}
    (hDistinct : Entries.Distinct (front ++ back))
    (h : Entries.Aligned Kept back fields) (path : Path) (errors : List InputError) :
    coerceFields fields (Literal.ofFields (front ++ back)) path front errors =
      (some (front ++ back), errors) := by
  induction h generalizing front with
  | nil => simp [coerceFields]
  | @cons entry field rest fields hHead _ ih =>
    obtain ⟨name, tree⟩ := entry
    obtain ⟨_, type⟩ := field
    obtain ⟨rfl, hTree⟩ := hHead
    have hLookup : (Literal.ofFields (front ++ (name, tree) :: rest)).lookup name = some (.ofTree tree) := by
      have hMember : (name, tree) ∈ front ++ (name, tree) :: rest := by simp
      rw [Literal.lookup_ofFields, Entries.lookup_of_mem hDistinct hMember, Option.map_some]
    have hFresh : name ∉ front.names := by
      intro hMember
      rw [Entries.Distinct, Entries.names_append, List.nodup_append] at hDistinct
      exact hDistinct.2.2 name hMember name List.mem_cons_self rfl
    have hRest := @ih (front ++ [(name, tree)]) (by simpa using hDistinct)
    rw [coerceFields, hLookup]
    simp only [hTree _ errors, Entries.insert_of_not_mem tree hFresh]
    simpa using hRest

theorem kept_of_fits {type : Descriptor} (hNames : type.DistinctNames) {tree : InputTree}
    (h : tree.Fits type) : Kept tree type := by
  intro path errors
  induction type generalizing tree path errors with
  | field | boolean | string _ | integer _ _ => rw [coerce_scalar rfl, scalarOf_ofTree rfl h]
  | array length element ih =>
    obtain ⟨items, rfl, hLength, hItems⟩ := h.exists_list_of_array
    rw [Literal.ofTree, coerce, if_pos (by simpa [Literal.ofTrees_eq_map] using hLength),
      coerceEach_ofTrees fun item hItem => ih hNames (hItems item hItem)]
    rfl
  | tuple elements ih =>
    obtain ⟨items, rfl, hItems⟩ := h.exists_list_of_tuple
    have hElements := Descriptor.distinctNames_tuple_iff.mp hNames
    have hKept : List.Forall₂ Kept items elements := Entries.forall₂_imp_of_mem hItems
      fun item _ type hType hItem => ih type hType (hElements type hType) hItem
    rw [Literal.ofTree, coerce, if_pos (by simpa [Literal.ofTrees_eq_map] using hItems.length_eq),
      coerceElements_ofTrees hKept]
    rfl
  | struct declared fields ih =>
    obtain ⟨entries, rfl, hEntries⟩ := h.exists_struct
    obtain ⟨hDistinct, hFields⟩ := Descriptor.distinctNames_struct_iff.mp hNames
    have hSet : fieldSetError? path (fields.map Prod.fst) (Literal.ofFields entries) = none := by
      rw [fieldSetError?_eq_none_iff, Literal.names_ofFields, hEntries.names_eq, Entries.names]
      exact ⟨fun _ h => h, fun _ h => h⟩
    have hKept : Entries.Aligned Kept entries fields := hEntries.imp_of_mem
      fun field hField tree hTree => ih field hField (hFields field hField) hTree
    have hEntriesDistinct : Entries.Distinct entries := by
      rw [Entries.Distinct, hEntries.names_eq]
      exact hDistinct
    have hAll := @coerceFields_ofFields [] entries fields hEntriesDistinct hKept path errors
    rw [List.nil_append] at hAll
    rw [Literal.ofTree, coerce, hSet]
    simp [hAll]

theorem fits_iff_typecheck {type : Descriptor} (hNames : type.DistinctNames) {tree : InputTree} :
    tree.Fits type ↔ typecheck type (.ofTree tree) = .ok tree :=
  ⟨fun h => typecheck_eq_ok_iff.mpr (kept_of_fits hNames h [] []), fits_of_typecheck hNames⟩

end CircuitForm
