import CircuitForm.Proofs.Input.Failing

/-!
# The report of a check

A check is refused when some node fails, with the errors of the exposed ones in the order of the
descriptor. Otherwise each leaf of the literal is converted and stands where the descriptor declares it.
-/

namespace CircuitForm

/-- What becomes of a leaf: a boolean may be spelled in another kind, all else is taken as it is. -/
inductive Converts : Descriptor → Literal → InputTree → Prop where
  | field (n : Numeral) : Converts .field (.number n) (.number n)
  | integer (sign : Sign) (width : Nat) (n : Numeral) : Converts (.integer sign width) (.number n) (.number n)
  | boolean {literal : Literal} {b : Bool} (h : SpellsBoolean literal b) :
      Converts .boolean literal (.boolean b)
  | string (length : Nat) (s : String) : Converts (.string length) (.string s) (.string s)

theorem converts_of_scalarOf {type : Descriptor} {literal : Literal} {tree : InputTree}
    (h : scalarOf type literal = .ok tree) : Converts type literal tree := by
  revert h
  fun_cases scalarOf type literal
  case case1 n => rintro ⟨⟩; exact .field n
  case case3 sign width n _ => rintro ⟨⟩; exact .integer sign width n
  case case4 b hRead => rintro ⟨⟩; exact .boolean (booleanOf?_eq_some_iff.mp hRead)
  case case6 s => rintro ⟨⟩; exact .string _ s
  case case2 | case5 | case7 | case8 => rintro ⟨⟩

section

variable {type : Descriptor} {literal : Literal} {errors : List InputError}

theorem typecheck_eq_error_iff :
    typecheck type literal = .error errors ↔ errors = reported type literal ∧ errors ≠ [] := by
  have hAccounts := accounts_coerce type literal [] []
  rw [typecheck, reported]
  generalize coerce type literal [] [] = result at hAccounts ⊢
  obtain ⟨added, hErrors, hNone⟩ := hAccounts
  obtain ⟨value, found⟩ := result
  obtain rfl : found = added := hErrors
  cases value with
  | none =>
    have hFound : found ≠ [] := hNone.mp rfl
    simp only [Except.error.injEq, eq_comm (a := found)]
    exact ⟨fun hSame => ⟨hSame, hSame ▸ hFound⟩, And.left⟩
  | some tree =>
    have hFound : found = [] := Decidable.byContradiction fun h => Option.some_ne_none tree (hNone.mpr h)
    subst hFound
    simp +contextual

theorem exists_error_iff (hNames : type.DistinctNames) :
    (∃ errors, typecheck type literal = .error errors) ↔ ∃ path fault, FailsAt type literal path fault := by
  constructor
  · rintro ⟨errors, hErrors⟩
    obtain ⟨rfl, hFound⟩ := typecheck_eq_error_iff.mp hErrors
    obtain ⟨⟨path, fault⟩, hMember⟩ := List.exists_mem_of_ne_nil _ hFound
    exact ⟨path, fault, ((mem_reported_iff hNames).mp hMember).1⟩
  · rintro ⟨path, fault, hFails⟩
    obtain ⟨above, other, hExposed⟩ := hFails.exists_exposed
    have hMember := (mem_reported_iff hNames).mpr hExposed
    exact ⟨_, typecheck_eq_error_iff.mpr ⟨rfl, List.ne_nil_of_mem hMember⟩⟩

theorem exists_accepted (hNames : type.DistinctNames) (h : ∀ path fault, ¬ FailsAt type literal path fault) :
    ∃ tree, typecheck type literal = .ok tree := by
  cases hResult : typecheck type literal with
  | ok tree => exact ⟨tree, rfl⟩
  | error errors =>
    obtain ⟨path, fault, hFails⟩ := (exists_error_iff hNames).mp ⟨errors, hResult⟩
    exact absurd hFails (h path fault)

/-- A raw text that is decoded to the literal is refused with the same errors, or with the first. -/
theorem check_of_typecheck (h : typecheck type literal = .error errors) {raw : String}
    (hRaw : Literal.decode type raw = .ok literal) :
    checkAll type raw = .error errors ∧
      ∃ error rest, errors = error :: rest ∧ check type raw = .error error := by
  have hAll : checkAll type raw = .error errors := by
    rw [checkAll, hRaw]
    exact h
  refine ⟨hAll, ?_⟩
  cases errors with
  | nil => exact absurd rfl (typecheck_eq_error_iff.mp h).2
  | cons error rest => exact ⟨error, rest, rfl, by rw [check, hAll]; rfl⟩

theorem Coerces.converts_at (hNames : type.DistinctNames) {tree : InputTree} (h : Coerces type literal tree)
    {path : Path} {leaf : Descriptor} (hType : type.at? path = some leaf) (hScalar : leaf.isScalar = true) :
    ∃ item value, literal.at? path = some item ∧ tree.at? path = some value ∧ Converts leaf item value := by
  have hNode := h.at?_rel hNames path
  rw [hType] at hNode
  generalize literal.at? path = found at hNode ⊢
  cases hNode with
  | @some item _ hItem =>
    obtain ⟨value, hValue, hCoerces⟩ := hItem
    exact ⟨item, value, rfl, hValue, converts_of_scalarOf (scalarOf_of_coerces hScalar hCoerces)⟩

end

theorem typecheck_reports {type : Descriptor} (hNames : type.DistinctNames) (literal : Literal) :
    ((∃ errors, typecheck type literal = .error errors) ↔ ∃ path fault, FailsAt type literal path fault) ∧
    (∀ errors, typecheck type literal = .error errors →
      (∀ path fault, ⟨path, fault⟩ ∈ errors ↔ Exposed type literal path fault) ∧
      (errors.Pairwise fun error later =>
        type.Before error.path later.path ∧ error.path.Apart later.path) ∧
      ∀ raw, Literal.decode type raw = .ok literal → checkAll type raw = .error errors ∧
        ∃ error rest, errors = error :: rest ∧ check type raw = .error error) ∧
    ((∀ path fault, ¬ FailsAt type literal path fault) →
      ∃ tree, typecheck type literal = .ok tree ∧
        (∀ path leaf, type.at? path = some leaf → leaf.isScalar = true →
          ∃ item value, literal.at? path = some item ∧ tree.at? path = some value ∧
            Converts leaf item value) ∧
        (∀ path, (∃ node, tree.at? path = some node) ↔ ∃ declared, type.at? path = some declared) ∧
        ∀ path declared fields, type.at? path = some (.struct declared fields) →
          ∃ entries, tree.at? path = some (.struct entries) ∧
            Entries.names entries = Entries.names fields) := by
  refine ⟨exists_error_iff hNames, ?_, ?_⟩
  · intro errors hErrors
    obtain ⟨rfl, -⟩ := typecheck_eq_error_iff.mp hErrors
    refine ⟨fun path fault => mem_reported_iff hNames, ?_, fun raw hRaw => check_of_typecheck hErrors hRaw⟩
    exact (pairwise_reported hNames literal).imp fun hBefore => ⟨hBefore, hBefore.apart⟩
  · intro hPasses
    obtain ⟨tree, hTree⟩ := exists_accepted hNames hPasses
    have hCoerces := coerces_of_typecheck hTree
    have hFits := fits_of_typecheck hNames hTree
    refine ⟨tree, hTree, ?_, hFits.exists_at?_iff, ?_⟩
    · intro path leaf hType hScalar
      exact hCoerces.converts_at hNames hType hScalar
    · intro path declared fields hType
      exact hFits.exists_entries hType

def sampleBallot : Descriptor :=
  .struct "Ballot" [("seal", .tuple [.integer .unsigned 8, .string 2]), ("marks", .array 2 .field), ("cast", .boolean)]

/-- The marks come first, and each of the three fields has a leaf that fails. -/
def spoiltBallot : Literal :=
  .object [("marks", .array [.number (.ofNat 1), .boolean true]),
    ("seal", .array [.number (.ofNat 1), .string "abc"]), ("cast", .string "yes")]

/-- The same with leaves that pass. -/
def mendedBallot : Literal :=
  .object [("marks", .array [.number (.ofNat 1), .number (.ofNat 2)]),
    ("seal", .array [.number (.ofNat 1), .string "ab"]), ("cast", .string " True")]

theorem typecheck_spoiltBallot :
    sampleBallot.DistinctNames ∧
      typecheck sampleBallot spoiltBallot = .error
        [⟨[.key "seal", .index 1], .wrongLength 2 3⟩,
          ⟨[.key "marks", .index 1], .mismatch "a number (Field)" "boolean"⟩,
          ⟨[.key "cast"], .mismatch "a boolean" "string"⟩] ∧
      Exposed sampleBallot spoiltBallot [.key "seal", .index 1] (.wrongLength 2 3) ∧
      check (.string 2) "abc" = .error ⟨[], .wrongLength 2 3⟩ ∧
      ∃ tree, typecheck sampleBallot mendedBallot = .ok tree ∧
        tree.at? [.key "marks", .index 1] = some (.number (.ofNat 2)) ∧
        tree.at? [.key "cast"] = some (.boolean true) := by
  have hNames : sampleBallot.DistinctNames := by
    simp [sampleBallot, Descriptor.DistinctNames, Descriptor.DistinctNamesFields,
      Descriptor.DistinctNamesEach, Entries.Distinct]
  have hBallot : typecheck sampleBallot spoiltBallot = .error
      [⟨[.key "seal", .index 1], .wrongLength 2 3⟩,
        ⟨[.key "marks", .index 1], .mismatch "a number (Field)" "boolean"⟩,
        ⟨[.key "cast"], .mismatch "a boolean" "string"⟩] := rfl
  obtain ⟨hMember, -, -⟩ := (typecheck_reports hNames spoiltBallot).2.1 _ hBallot
  have hSealNames : Descriptor.DistinctNames (.string 2) := trivial
  have hSeal : typecheck (.string 2) (.string "abc") = .error [⟨[], .wrongLength 2 3⟩] := rfl
  obtain ⟨-, -, hRaw⟩ := (typecheck_reports hSealNames (.string "abc")).2.1 _ hSeal
  obtain ⟨-, error, rest, hFirst, hCheck⟩ := hRaw "abc" rfl
  have hMended : ∀ path fault, ¬ FailsAt sampleBallot mendedBallot path fault := by
    intro path fault hFails
    obtain ⟨errors, hErrors⟩ := (typecheck_reports hNames mendedBallot).1.mpr ⟨path, fault, hFails⟩
    cases hErrors
  refine ⟨hNames, hBallot, ?_, ?_, ?_⟩
  · exact (hMember _ _).mp List.mem_cons_self
  · rw [hCheck, (List.cons.inj hFirst).1]
  · obtain ⟨tree, hTree, hLeaves, -⟩ := (typecheck_reports hNames mendedBallot).2.2 hMended
    obtain ⟨mark, number, hMark, hNumber, hMarkConverts⟩ := hLeaves [.key "marks", .index 1] .field rfl rfl
    cases hMark
    cases hMarkConverts
    obtain ⟨word, truth, hWord, hTruth, hWordConverts⟩ := hLeaves [.key "cast"] .boolean rfl rfl
    cases hWord
    refine ⟨tree, hTree, hNumber, ?_⟩
    cases hWordConverts with
    | boolean hSpelled =>
      cases (booleanOf?_eq_some_iff.mpr hSpelled).symm.trans (show booleanOf? (.string " True") = some true from rfl)
      exact hTruth

end CircuitForm
