import CircuitForm.Proofs.Input.Relative

/-!
# The order of keys in a literal

A check looks entries up by the declared names and goes through these in the declared order, so the
order in which a literal has them does not show. Only names that were not expected are told in the
order of the literal.
-/

namespace CircuitForm

namespace Literal

/-- The entries of some objects, at whatever depth, come in another order, and nothing else is changed.
An object has each name once. -/
inductive Reordered : Literal → Literal → Prop where
  | refl (literal : Literal) : Reordered literal literal
  | trans {literal middle other : Literal} (h : Reordered literal middle) (hNext : Reordered middle other) :
      Reordered literal other
  | entries {entries others : Entries Literal} (hDistinct : entries.Distinct) (h : entries.Perm others) :
      Reordered (.object entries) (.object others)
  | underKey {item other : Literal} (front : Entries Literal) (name : String) (back : Entries Literal)
      (h : Reordered item other) :
      Reordered (.object (front ++ (name, item) :: back)) (.object (front ++ (name, other) :: back))
  | underIndex {item other : Literal} (front back : List Literal) (h : Reordered item other) :
      Reordered (.array (front ++ item :: back)) (.array (front ++ other :: back))

end Literal

inductive SameFault : InputFault → InputFault → Prop where
  | refl (fault : InputFault) : SameFault fault fault
  | wrongFields (missing : List String) {unexpected others : List String} (h : unexpected.Perm others) :
      SameFault (.wrongFields missing unexpected) (.wrongFields missing others)

def SameError (error other : InputError) : Prop :=
  error.path = other.path ∧ SameFault error.fault other.fault

inductive SameOutcome : Except (List InputError) InputTree → Except (List InputError) InputTree → Prop where
  | accepted (tree : InputTree) : SameOutcome (.ok tree) (.ok tree)
  | refused {errors others : List InputError} (h : List.Forall₂ SameError errors others) :
      SameOutcome (.error errors) (.error others)

theorem SameFault.trans {fault middle other : InputFault} (h : SameFault fault middle)
    (hNext : SameFault middle other) : SameFault fault other := by
  cases h with
  | refl _ => exact hNext
  | wrongFields missing hPerm =>
    cases hNext with
    | refl _ => exact .wrongFields missing hPerm
    | wrongFields _ hNextPerm => exact .wrongFields missing (hPerm.trans hNextPerm)

theorem SameError.refl (error : InputError) : SameError error error :=
  ⟨rfl, .refl _⟩

theorem SameError.trans {error middle other : InputError} (h : SameError error middle)
    (hNext : SameError middle other) : SameError error other :=
  ⟨h.1.trans hNext.1, h.2.trans hNext.2⟩

instance : Std.Refl SameError := ⟨.refl⟩

theorem sameErrors_trans {errors middle others : List InputError} (h : List.Forall₂ SameError errors middle)
    (hNext : List.Forall₂ SameError middle others) : List.Forall₂ SameError errors others := by
  induction h generalizing others with
  | nil => exact hNext
  | cons hError _ ih =>
    cases hNext with
    | cons hOther hOthers => exact .cons (hError.trans hOther) (ih hOthers)

variable {α : Type} {errors found : List InputError}

/-- The runs give the same, and their errors are the same one by one. -/
def Agree (first second : Option α × List InputError) : Prop :=
  first.1 = second.1 ∧ List.Forall₂ SameError first.2 second.2

theorem Agree.map {β : Type} {first second : Option α × List InputError} (h : Agree first second) (f : α → β) :
    Agree (first.1.map f, first.2) (second.1.map f, second.2) :=
  ⟨congrArg (Option.map f) h.1, h.2⟩

theorem agree_refused (h : List.Forall₂ SameError errors found) {error other : InputError}
    (hError : SameError error other) :
    Agree ((none : Option α), errors ++ [error]) (none, found ++ [other]) :=
  ⟨rfl, List.rel_append h (.cons hError .nil)⟩

/-- Whatever they are checked against, and whatever was found before, the two cannot be told apart. -/
def Alike (literal other : Literal) : Prop :=
  ∀ type path errors found, List.Forall₂ SameError errors found →
    Agree (coerce type literal path errors) (coerce type other path found)

theorem Alike.refl (literal : Literal) : Alike literal literal := by
  intro type path errors found h
  have hRelative := relative_coerce type literal
  rw [hRelative.eq path errors, hRelative.eq path found]
  exact ⟨rfl, List.rel_append h (List.forall₂_refl _)⟩

instance : Std.Refl Alike := ⟨.refl⟩

theorem Alike.trans {literal middle other : Literal} (h : Alike literal middle) (hNext : Alike middle other) :
    Alike literal other := by
  intro type path errors found hErrors
  have hFirst := h type path errors errors (List.forall₂_refl errors)
  have hSecond := hNext type path errors found hErrors
  exact ⟨hFirst.1.trans hSecond.1, sameErrors_trans hFirst.2 hSecond.2⟩

theorem agree_coerceEach (element : Descriptor) {items others : List Literal}
    (h : List.Forall₂ Alike items others) (path : Path) (index : Nat)
    (hErrors : List.Forall₂ SameError errors found) :
    Agree (coerceEach (coerce element) path index items errors)
      (coerceEach (coerce element) path index others found) := by
  induction h generalizing index errors found with
  | nil => exact ⟨rfl, hErrors⟩
  | cons hItem _ ih =>
    obtain ⟨hFirst, hFound⟩ := hItem element (path.child (.index index)) errors found hErrors
    obtain ⟨hMore, hAll⟩ := ih (index + 1) hFound
    refine ⟨?_, hAll⟩
    simp only [coerceEach, hFirst, hMore]

theorem agree_coerceElements (types : List Descriptor) {items others : List Literal}
    (h : List.Forall₂ Alike items others) (path : Path) (index : Nat)
    (hErrors : List.Forall₂ SameError errors found) :
    Agree (coerceElements types path index items errors) (coerceElements types path index others found) := by
  induction h generalizing types index errors found with
  | nil => cases types <;> exact ⟨rfl, hErrors⟩
  | cons hItem _ ih =>
    cases types with
    | nil => exact ⟨rfl, hErrors⟩
    | cons type types =>
      obtain ⟨hFirst, hFound⟩ := hItem type (path.child (.index index)) errors found hErrors
      obtain ⟨hMore, hAll⟩ := ih types (index + 1) hFound
      refine ⟨?_, hAll⟩
      simp only [coerceElements, hFirst, hMore]

theorem Alike.array {items others : List Literal} (h : List.Forall₂ Alike items others) :
    Alike (.array items) (.array others) := by
  intro type path errors found hErrors
  cases type with
  | field | boolean | string _ | integer _ _ | struct _ _ => exact agree_refused hErrors (.refl _)
  | array length element =>
    rw [coerce, coerce, h.length_eq]
    split
    · exact (agree_coerceEach element h path 0 hErrors).map _
    · exact agree_refused hErrors (.refl _)
  | tuple elements =>
    rw [coerce, coerce, h.length_eq]
    split
    · exact (agree_coerceElements elements h path 0 hErrors).map _
    · exact agree_refused hErrors (.refl _)

theorem agree_coerceFields (fields : Entries Descriptor) {entries others : Entries Literal}
    (h : ∀ name, Option.Rel Alike (entries.lookup name) (others.lookup name)) (path : Path)
    (built : Entries InputTree) (hErrors : List.Forall₂ SameError errors found) :
    Agree (coerceFields fields entries path built errors) (coerceFields fields others path built found) := by
  induction fields generalizing built errors found with
  | nil => exact ⟨rfl, hErrors⟩
  | cons field rest ih =>
    obtain ⟨name, type⟩ := field
    rw [coerceFields, coerceFields]
    have hEntry := h name
    generalize entries.lookup name = first, others.lookup name = second at hEntry ⊢
    cases hEntry with
    | none => exact ⟨rfl, (ih built hErrors).2⟩
    | @some item other hItem =>
      have hField := hItem type (path.child (.key name)) errors found hErrors
      dsimp only
      generalize coerce type item (path.child (.key name)) errors = run,
        coerce type other (path.child (.key name)) found = otherRun at hField ⊢
      obtain ⟨value, more⟩ := run
      obtain ⟨_, otherMore⟩ := otherRun
      obtain ⟨rfl, hMore⟩ := hField
      cases value with
      | none => exact ⟨rfl, (ih built hMore).2⟩
      | some tree => exact ih _ hMore

/-- The missing names come in the declared order, the unexpected ones in that of the entries. -/
theorem fieldSetError?_rel (path : Path) (declared : List String) {entries others : Entries Literal}
    (h : entries.names.Perm others.names) :
    Option.Rel SameError (fieldSetError? path declared entries) (fieldSetError? path declared others) := by
  have hMissing : (declared.filter fun name => !entries.names.contains name) =
      declared.filter fun name => !others.names.contains name :=
    List.filter_congr fun name _ => by rw [h.contains_eq]
  have hUnexpected := h.filter fun name => !declared.contains name
  rw [fieldSetError?, fieldSetError?, hMissing, hUnexpected.isEmpty_eq]
  split
  · exact .none
  · exact .some ⟨rfl, .wrongFields _ hUnexpected⟩

theorem Alike.object {entries others : Entries Literal} (hNames : entries.names.Perm others.names)
    (h : ∀ name, Option.Rel Alike (entries.lookup name) (others.lookup name)) :
    Alike (.object entries) (.object others) := by
  intro type path errors found hErrors
  cases type with
  | field | boolean | string _ | integer _ _ | array _ _ | tuple _ => exact agree_refused hErrors (.refl _)
  | struct declared fields =>
    rw [coerce, coerce]
    have hSet := fieldSetError?_rel path (fields.map Prod.fst) hNames
    generalize fieldSetError? path (fields.map Prod.fst) entries = first,
      fieldSetError? path (fields.map Prod.fst) others = second at hSet ⊢
    cases hSet with
    | none => exact (agree_coerceFields fields h path [] hErrors).map _
    | some hError => exact agree_refused hErrors hError

theorem Alike.of_reordered {literal other : Literal} (h : literal.Reordered other) : Alike literal other := by
  induction h with
  | refl literal => exact .refl literal
  | trans _ _ ih ihNext => exact ih.trans ihNext
  | @entries entries others hDistinct hPerm =>
    refine .object (hPerm.map Prod.fst) fun name => ?_
    rw [Entries.lookup_of_perm hDistinct hPerm]
    cases others.lookup name with
    | none => exact .none
    | some item => exact .some (.refl item)
  | @underKey item other front name back _ ih =>
    have hAligned : Entries.Aligned Alike (front ++ (name, item) :: back) (front ++ (name, other) :: back) :=
      List.rel_append (Entries.aligned_refl front) (.cons ⟨rfl, ih⟩ (Entries.aligned_refl back))
    exact .object (.of_eq hAligned.names_eq) hAligned.lookup_rel
  | underIndex front back _ ih =>
    exact .array (List.rel_append (List.forall₂_refl front) (.cons ih (List.forall₂_refl back)))

/-- A reordered literal is accepted with the same tree, or refused with errors that agree one by one in
place and reason, up to the order in which unexpected names are told. -/
theorem sameOutcome_of_reordered (type : Descriptor) {literal other : Literal} (h : literal.Reordered other) :
    SameOutcome (typecheck type literal) (typecheck type other) := by
  have hAgree := Alike.of_reordered h type [] [] [] .nil
  rw [typecheck, typecheck]
  generalize coerce type literal [] [] = run, coerce type other [] [] = otherRun at hAgree ⊢
  obtain ⟨value, errors⟩ := run
  obtain ⟨_, others⟩ := otherRun
  obtain ⟨rfl, hErrors⟩ := hAgree
  cases value with
  | none => exact .refused hErrors
  | some tree =>
    cases hErrors with
    | nil => exact .accepted tree
    | cons hError hMore => exact .refused (.cons hError hMore)

def sealedBallot : Descriptor :=
  .struct "Ballot" [("seal", .struct "Seal" [("by", .string 2)]),
    ("marks", .array 1 (.struct "Mark" [("first", .field), ("last", .boolean)]))]

/-- Of the two fields one has other names than declared, the other an element that fails. -/
def missealedBallot : Literal :=
  .object [("seal", .object [("day", .string "on"), ("of", .string "it")]),
    ("marks", .array [.object [("first", .boolean true), ("last", .boolean true)]])]

/-- The same with each of its three objects turned round. -/
def turnedBallot : Literal :=
  .object [("marks", .array [.object [("last", .boolean true), ("first", .boolean true)]]),
    ("seal", .object [("of", .string "it"), ("day", .string "on")])]

theorem reordered_turnedBallot : missealedBallot.Reordered turnedBallot :=
  .trans (.underKey [] "seal" _ (.entries (by decide) (.swap _ _ _)))
    (.trans (.underKey [_] "marks" [] (.underIndex [] [] (.entries (by decide) (.swap _ _ _))))
      (.entries (by decide) (.swap _ _ _)))

theorem sameOutcome_of_reordered_ballot :
    missealedBallot.Reordered turnedBallot ∧
    typecheck sealedBallot missealedBallot = .error
      [⟨[.key "seal"], .wrongFields ["by"] ["day", "of"]⟩,
        ⟨[.key "marks", .index 0, .key "first"], .mismatch "a number (Field)" "boolean"⟩] ∧
    typecheck sealedBallot turnedBallot = .error
      [⟨[.key "seal"], .wrongFields ["by"] ["of", "day"]⟩,
        ⟨[.key "marks", .index 0, .key "first"], .mismatch "a number (Field)" "boolean"⟩] ∧
    SameOutcome (typecheck sealedBallot missealedBallot) (typecheck sealedBallot turnedBallot) :=
  ⟨reordered_turnedBallot, rfl, rfl, sameOutcome_of_reordered sealedBallot reordered_turnedBallot⟩

end CircuitForm
