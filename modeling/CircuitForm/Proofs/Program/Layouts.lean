import CircuitForm.Proofs.Program.Spelling

/-!
# The two layouts of a registry

Programs come in documents of their own or together in one. The one document is a map, where a name
that comes again replaces what it stood for; one after the other, a name that comes again is
refused. So the layouts agree as long as the names are distinct.
-/

namespace CircuitForm.Registry

open Json (Decoder)

variable {programs : List (String × Program)}

/-- Two ways of loading come to the same registry or are both refused. -/
inductive Alike : Except String Registry → Except Json.DocumentError Registry → Prop where
  | loaded (registry : Registry) : Alike (.ok registry) (.ok registry)
  | refused (name : String) (error : Json.DocumentError) : Alike (.error name) (.error error)

theorem foldlM_cases (front : Registry) (hFront : front.Distinct) {result : Except String Registry}
    (hResult : programs.foldlM (fun registry (name, program) =>
      match registry.lookup name with
      | some _ => .error name
      | none => .ok (registry ++ [(name, program)])) front = result) :
    (result = .ok (front ++ programs) ∧ Entries.Distinct (front ++ programs)) ∨
      ∃ name, result = .error name ∧ 1 < (Entries.names (front ++ programs)).count name := by
  induction programs generalizing front with
  | nil =>
    rw [List.append_nil]
    exact .inl ⟨hResult.symm, hFront⟩
  | cons entry rest ih =>
    obtain ⟨name, program⟩ := entry
    rw [List.foldlM_cons] at hResult
    dsimp only at hResult
    split at hResult
    · rename_i old hOld
      subst hResult
      have hSeen : 0 < front.names.count name :=
        List.count_pos_iff.mpr (List.mem_map_of_mem (Entries.mem_of_lookup hOld))
      refine .inr ⟨name, rfl, ?_⟩
      rw [Entries.names_append, Entries.names_cons, List.count_append, List.count_cons_self]
      omega
    · rename_i hNone
      have hFresh := Entries.lookup_eq_none_iff.mp hNone
      have hNext : Entries.Distinct (front ++ [(name, program)]) := by
        rw [← Entries.insert_of_not_mem program hFresh]
        exact hFront.insert name program
      have hRest := ih _ hNext hResult
      rwa [List.append_assoc, List.singleton_append] at hRest

theorem ofPrograms_cases (programs : List (String × Program)) :
    (ofPrograms programs = .ok programs ∧ Entries.Distinct programs) ∨
      ∃ name, ofPrograms programs = .error name ∧ 1 < (Entries.names programs).count name :=
  foldlM_cases [] List.nodup_nil rfl

theorem reads_toJson (hPrograms : ∀ entry ∈ programs, ∃ d, entry.2.Encodable d) :
    decoder.Reads (toJson programs) (Entries.ofList programs) := by
  refine Decoder.reads_map (List.forall₂_map_left_iff.mpr (List.forall₂_same.mpr fun entry hEntry => ⟨rfl, ?_⟩))
  obtain ⟨d, hEncodable⟩ := hPrograms entry hEntry
  exact Program.reads_of_spells hEncodable entry.2.spells_toJson

theorem decodeDocument_toJson
    (hPrograms : ∀ entry ∈ programs, ∃ document, Json.decodeDocument Program.decoder document = .ok entry.2)
    (hDepth : (toJson programs).depth ≤ Json.depthLimit) :
    Json.decodeDocument decoder (Bytes.ofString (toJson programs).compact) = .ok (Entries.ofList programs) := by
  have hReads : decoder.Reads (toJson programs) (Entries.ofList programs) := by
    refine reads_toJson fun entry hEntry => ?_
    obtain ⟨document, hDocument⟩ := hPrograms entry hEntry
    exact ⟨124, encodable_of_decodeDocument hDocument⟩
  exact Json.decodeDocument_eq_ok_iff.mpr ⟨[], hReads _ _ _ (Json.value_compact hDepth)⟩

/-- The layouts agree on programs of distinct names, and only on those. Where a name comes again, the
one document is read all the same, with the last program of each name at the place of the first. -/
theorem alike_iff_distinct
    (hPrograms : ∀ entry ∈ programs, ∃ document, Json.decodeDocument Program.decoder document = .ok entry.2)
    (hDepth : (toJson programs).depth ≤ Json.depthLimit) :
    (Alike (ofPrograms programs)
        (Json.decodeDocument decoder (Bytes.ofString (toJson programs).compact)) ↔ Entries.Distinct programs) ∧
      (Entries.Distinct programs → ofPrograms programs = .ok programs) ∧
      (¬ Entries.Distinct programs →
        ∃ name, ofPrograms programs = .error name ∧ 1 < (Entries.names programs).count name) ∧
      Json.decodeDocument decoder (Bytes.ofString (toJson programs).compact) = .ok (Entries.ofList programs) := by
  have hTogether := decodeDocument_toJson hPrograms hDepth
  rw [hTogether]
  obtain ⟨hApart, hDistinct⟩ | ⟨name, hApart, hTwice⟩ := ofPrograms_cases programs
  · rw [hApart, Entries.ofList_of_distinct hDistinct]
    exact ⟨iff_of_true (.loaded programs) hDistinct, fun _ => rfl, absurd hDistinct, rfl⟩
  · have hRepeated : ¬ Entries.Distinct programs := fun hDistinct =>
      Nat.not_lt.mpr (List.nodup_iff_count_le_one.mp hDistinct name) hTwice
    rw [hApart]
    exact ⟨iff_of_false nofun hRepeated, fun hDistinct => absurd hDistinct hRepeated,
      fun _ => ⟨name, rfl, hTwice⟩, rfl⟩

def ballots (names : List String) : List (String × Program) :=
  names.map fun name => (name, Program.ballot)

theorem decodable_ballots (names : List String) :
    ∀ entry ∈ ballots names, ∃ document, Json.decodeDocument Program.decoder document = .ok entry.2 := by
  rw [ballots, List.forall_mem_map]
  exact fun _ _ => ⟨_, Program.decodeDocument_ballot⟩

theorem alike_ballots : Alike (ofPrograms (ballots ["spring", "autumn"]))
    (Json.decodeDocument decoder (Bytes.ofString (toJson (ballots ["spring", "autumn"])).compact)) :=
  (alike_iff_distinct (decodable_ballots ["spring", "autumn"]) (by decide)).1.mpr (by decide)

/-- The same name twice: refused in two documents, but not in one. -/
theorem not_alike_ballots :
    (∀ entry ∈ ballots ["spring", "spring"],
      ∃ document, Json.decodeDocument Program.decoder document = .ok entry.2) ∧
    (toJson (ballots ["spring", "spring"])).depth ≤ Json.depthLimit ∧
    ¬ Alike (ofPrograms (ballots ["spring", "spring"]))
      (Json.decodeDocument decoder (Bytes.ofString (toJson (ballots ["spring", "spring"])).compact)) := by
  have hPrograms := decodable_ballots ["spring", "spring"]
  have hApart : ofPrograms (ballots ["spring", "spring"]) = .error "spring" := rfl
  refine ⟨hPrograms, by decide, ?_⟩
  rw [decodeDocument_toJson hPrograms (by decide), hApart]
  nofun

end CircuitForm.Registry
