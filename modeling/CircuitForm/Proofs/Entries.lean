import Mathlib.Data.List.Forall2
import Mathlib.Data.List.Induction
import CircuitForm.Json.Basic

/-!
# Entries side by side

A name that is not there yet is put at the end, so entries built one by one from distinct names
come in the order in which they were put. Two rows of entries are aligned when they have the
same names in the same order and related values; a lookup then answers alike in both.
-/

namespace CircuitForm.Entries

variable {α β : Type}

instance decidableDistinct (entries : Entries α) : Decidable entries.Distinct :=
  inferInstanceAs (Decidable entries.names.Nodup)

@[simp] theorem names_nil : (names ([] : Entries α)) = [] := rfl

@[simp] theorem names_cons (entry : String × α) (rest : Entries α) :
    names (entry :: rest) = entry.1 :: names rest := rfl

@[simp] theorem names_append (front back : Entries α) :
    names (front ++ back) = names front ++ names back := by
  simp [names]

section

variable {κ : Type} [BEq κ] [LawfulBEq κ] [DecidableEq κ]

theorem lookup_cons (key other : κ) (value : α) (rest : List (κ × α)) :
    ((other, value) :: rest).lookup key = if key = other then some value else rest.lookup key := by
  rw [List.lookup_cons]
  by_cases hSame : key = other
  · simp [hSame]
  · rw [if_neg hSame, beq_false_of_ne hSame]

/-- What is kept or dropped by its key is found as before or not at all. -/
theorem lookup_filter (keep : κ → Bool) (key : κ) (entries : List (κ × α)) :
    (entries.filter fun entry => keep entry.1).lookup key =
      if keep key then entries.lookup key else none := by
  induction entries with
  | nil => simp
  | cons entry rest ih =>
    obtain ⟨other, value⟩ := entry
    rw [List.filter_cons, lookup_cons]
    by_cases hSame : key = other
    · subst hSame
      by_cases hKeep : keep key
      · rw [if_pos hKeep, if_pos hKeep, lookup_cons, if_pos rfl, if_pos rfl]
      · rw [if_neg hKeep, if_neg hKeep, ih, if_neg hKeep]
    · rw [if_neg hSame, ← ih]
      split
      · rw [lookup_cons, if_neg hSame]
      · rfl

end

theorem mem_of_lookup {name : String} {value : α} {entries : Entries α}
    (h : entries.lookup name = some value) : (name, value) ∈ entries := by
  obtain ⟨front, back, rfl, -⟩ := List.lookup_eq_some_iff.mp h
  simp

theorem lookup_eq_none_iff {name : String} {entries : Entries α} :
    entries.lookup name = none ↔ name ∉ entries.names := by
  induction entries with
  | nil => simp
  | cons entry rest ih =>
    obtain ⟨other, value⟩ := entry
    by_cases hName : name = other
    · simp [hName]
    · rw [List.lookup_cons, beq_false_of_ne hName, names_cons, List.mem_cons, not_or]
      exact ih.trans ⟨fun hRest => ⟨hName, hRest⟩, And.right⟩

theorem lookup_of_mem {name : String} {value : α} {entries : Entries α} (hDistinct : entries.Distinct)
    (h : (name, value) ∈ entries) : entries.lookup name = some value := by
  induction entries with
  | nil => cases h
  | cons entry rest ih =>
    obtain ⟨other, old⟩ := entry
    obtain ⟨hFresh, hRest⟩ := List.nodup_cons.mp hDistinct
    rcases List.mem_cons.mp h with hHead | hTail
    · cases hHead
      simp
    · have hMember : name ∈ names rest := List.mem_map.mpr ⟨_, hTail, rfl⟩
      have hName : name ≠ other := fun hSame => hFresh (hSame ▸ hMember)
      rw [List.lookup_cons, beq_false_of_ne hName]
      exact ih hRest hTail

theorem lookup_map (f : String → α → β) (entries : Entries α) (name : String) :
    (entries.map fun entry => (entry.1, f entry.1 entry.2)).lookup name =
      (entries.lookup name).map (f name) := by
  induction entries with
  | nil => rfl
  | cons entry rest ih =>
    obtain ⟨other, value⟩ := entry
    rw [List.map_cons, List.lookup_cons, List.lookup_cons]
    by_cases hName : name = other
    · simp [hName]
    · rw [beq_false_of_ne hName]
      exact ih

theorem lookup_of_perm {entries others : Entries α} (hDistinct : entries.Distinct)
    (h : entries.Perm others) (name : String) : entries.lookup name = others.lookup name := by
  cases hFound : others.lookup name with
  | none =>
    rw [lookup_eq_none_iff] at hFound ⊢
    exact fun hMember => hFound ((h.map Prod.fst).mem_iff.mp hMember)
  | some value => exact lookup_of_mem hDistinct (h.mem_iff.mpr (mem_of_lookup hFound))

/-- Distinct names in one order leave only the values, which the lookups give. -/
theorem eq_of_lookup {entries others : Entries α} (hNames : entries.names = others.names)
    (hDistinct : entries.Distinct) (hLookup : ∀ name, entries.lookup name = others.lookup name) :
    entries = others := by
  induction entries generalizing others with
  | nil => exact (List.map_eq_nil_iff.mp hNames.symm).symm
  | cons entry rest ih =>
    obtain ⟨name, value⟩ := entry
    cases others with
    | nil => cases hNames
    | cons other more =>
      obtain ⟨_, otherValue⟩ := other
      obtain ⟨rfl, hRestNames⟩ := List.cons.inj hNames
      obtain ⟨hFresh, hRest⟩ := List.nodup_cons.mp hDistinct
      have hValue : value = otherValue := by simpa using hLookup name
      have hTail : rest = more := by
        refine ih hRestNames hRest fun other => ?_
        by_cases hName : other = name
        · subst hName
          have hMore : other ∉ names more := by
            rw [names, ← hRestNames]
            exact hFresh
          rw [lookup_eq_none_iff.mpr hFresh, lookup_eq_none_iff.mpr hMore]
        · have hOther := hLookup other
          rwa [List.lookup_cons, List.lookup_cons, beq_false_of_ne hName] at hOther
      rw [hValue, hTail]

theorem insert_of_not_mem {name : String} (value : α) {entries : Entries α}
    (h : name ∉ entries.names) : entries.insert name value = entries ++ [(name, value)] := by
  induction entries with
  | nil => rfl
  | cons entry rest ih =>
    obtain ⟨other, old⟩ := entry
    rw [names_cons, List.mem_cons, not_or] at h
    rw [insert, if_neg (Ne.symm h.1), ih h.2]
    rfl

theorem mem_names_insert {name other : String} (value : α) {entries : Entries α} :
    other ∈ (entries.insert name value).names ↔ other ∈ entries.names ∨ other = name := by
  rw [names_insert]
  split
  · rename_i hMember
    exact ⟨.inl, fun h => h.elim id fun hSame => hSame ▸ hMember⟩
  · rw [List.mem_append, List.mem_singleton]

theorem Distinct.insert {entries : Entries α} (h : entries.Distinct) (name : String) (value : α) :
    Entries.Distinct (entries.insert name value) := by
  rw [Distinct, names_insert]
  split
  · exact h
  · rename_i hFresh
    refine List.nodup_append.mpr ⟨h, List.pairwise_singleton _ name, fun other hOther added hAdded hSame => ?_⟩
    exact hFresh (List.mem_singleton.mp hAdded ▸ hSame ▸ hOther)

theorem mem_of_mem_insert {name : String} {value : α} {entries : Entries α} {entry : String × α}
    (h : entry ∈ entries.insert name value) : entry = (name, value) ∨ entry ∈ entries := by
  induction entries with
  | nil => exact .inl (List.mem_singleton.mp h)
  | cons first rest ih =>
    obtain ⟨other, old⟩ := first
    rw [insert] at h
    by_cases hName : other = name
    · rw [if_pos hName] at h
      rcases List.mem_cons.mp h with hFirst | hRest
      · exact .inl (hName ▸ hFirst)
      · exact .inr (List.mem_cons_of_mem _ hRest)
    · rw [if_neg hName] at h
      rcases List.mem_cons.mp h with hFirst | hRest
      · exact .inr (hFirst ▸ List.mem_cons_self)
      · exact (ih hRest).imp_right (List.mem_cons_of_mem _)

theorem insert_of_lookup {name : String} {value : α} {entries : Entries α}
    (h : entries.lookup name = some value) : entries.insert name value = entries := by
  induction entries with
  | nil => cases h
  | cons entry rest ih =>
    obtain ⟨other, old⟩ := entry
    rw [insert]
    by_cases hName : other = name
    · subst hName
      have hValue : old = value := by simpa using h
      rw [if_pos rfl, hValue]
    · rw [List.lookup_cons, beq_false_of_ne (Ne.symm hName)] at h
      rw [if_neg hName, ih h]

theorem insert_insert (name : String) (old new : α) (entries : Entries α) :
    (entries.insert name old).insert name new = entries.insert name new := by
  induction entries with
  | nil => simp [insert]
  | cons entry rest ih =>
    by_cases hName : entry.1 = name <;> simp [insert, hName, ih]

/-- Values under two names that are there already may be put in either order. -/
theorem insert_comm {first second : String} (hNames : first ≠ second) {entries : Entries α} {a b : α}
    (hFirst : entries.lookup first = some a) (hSecond : entries.lookup second = some b) (x y : α) :
    (entries.insert first x).insert second y = (entries.insert second y).insert first x := by
  induction entries with
  | nil => cases hFirst
  | cons entry rest ih =>
    obtain ⟨other, old⟩ := entry
    by_cases hAtFirst : other = first
    · subst hAtFirst
      simp [insert, hNames]
    · by_cases hAtSecond : other = second
      · subst hAtSecond
        simp [insert, hAtFirst]
      · rw [List.lookup_cons, beq_false_of_ne (Ne.symm hAtFirst)] at hFirst
        rw [List.lookup_cons, beq_false_of_ne (Ne.symm hAtSecond)] at hSecond
        simp [insert, hAtFirst, hAtSecond, ih hFirst hSecond]

theorem foldl_insert {front entries : Entries α} (hDistinct : Entries.Distinct (front ++ entries)) :
    entries.foldl (fun entries entry => entries.insert entry.1 entry.2) front = front ++ entries := by
  induction entries generalizing front with
  | nil => exact (List.append_nil front).symm
  | cons entry rest ih =>
    have hFresh : entry.1 ∉ front.names := by
      intro hMember
      rw [Distinct, names_append, List.nodup_append] at hDistinct
      exact hDistinct.2.2 entry.1 hMember entry.1 List.mem_cons_self rfl
    rw [List.foldl_cons, insert_of_not_mem _ hFresh, ih (by simpa using hDistinct), List.append_assoc,
      List.singleton_append]

theorem ofList_append_singleton (front : Entries α) (entry : String × α) :
    ofList (front ++ [entry]) = (ofList front).insert entry.1 entry.2 := by
  rw [ofList, List.foldl_append]
  rfl

/-- Of the members with one name the last one counts. -/
theorem lookup_ofList (members : Entries α) (name : String) :
    (ofList members).lookup name = members.reverse.lookup name := by
  induction members using List.reverseRecOn with
  | nil => rfl
  | append_singleton front entry ih =>
    obtain ⟨other, value⟩ := entry
    rw [ofList_append_singleton, lookup_insert, List.reverse_append, List.reverse_singleton,
      List.singleton_append, List.lookup_cons, ih]
    by_cases hName : name = other
    · simp [hName]
    · simp [hName, beq_false_of_ne hName]

theorem ofList_of_distinct {entries : Entries α} (hDistinct : entries.Distinct) : ofList entries = entries :=
  @foldl_insert _ [] _ hDistinct

theorem getElem?_rel_of_forall₂ {R : α → β → Prop} {as : List α} {bs : List β}
    (h : List.Forall₂ R as bs) (i : Nat) : Option.Rel R as[i]? bs[i]? := by
  induction h generalizing i with
  | nil => exact .none
  | cons hHead _ ih =>
    cases i with
    | zero => exact .some hHead
    | succ i => exact ih i

theorem forall₂_imp_of_mem {R S : α → β → Prop} {as : List α} {bs : List β}
    (h : List.Forall₂ R as bs) (hImp : ∀ a ∈ as, ∀ b ∈ bs, R a b → S a b) :
    List.Forall₂ S as bs := by
  refine List.forall₂_iff_zip.mpr ⟨h.length_eq, fun hPair => ?_⟩
  obtain ⟨hLeft, hRight⟩ := List.of_mem_zip hPair
  exact hImp _ hLeft _ hRight (List.forall₂_zip h hPair)

theorem forall₂_set {R : α → β → Prop} {as : List α} {bs : List β} (h : List.Forall₂ R as bs)
    {i : Nat} {a : α} {b : β} (hIndex : bs[i]? = some b) (hNew : R a b) :
    List.Forall₂ R (as.set i a) bs := by
  induction h generalizing i with
  | nil => cases hIndex
  | cons hHead hRest ih =>
    cases i with
    | zero =>
      cases hIndex
      exact .cons hNew hRest
    | succ i => exact .cons hHead (ih hIndex)

theorem pairwise_idxOf [DecidableEq α] {items : List α} (hDistinct : items.Nodup) :
    items.Pairwise fun a b => items.idxOf a < items.idxOf b := by
  rw [List.pairwise_iff_getElem]
  intro i j hi hj hOrder
  rwa [hDistinct.idxOf_getElem, hDistinct.idxOf_getElem]

/-- The relation between the values may depend on the name under which they stand. -/
theorem lookup_rel_of_forall₂ {R : String → α → β → Prop} {entries : Entries α} {fields : Entries β}
    (h : List.Forall₂ (fun entry field => entry.1 = field.1 ∧ R field.1 entry.2 field.2) entries fields)
    (name : String) : Option.Rel (R name) (entries.lookup name) (fields.lookup name) := by
  induction h with
  | nil => exact .none
  | @cons entry field _ _ hHead _ ih =>
    obtain ⟨other, value⟩ := entry
    obtain ⟨_, type⟩ := field
    obtain ⟨rfl, hValue⟩ := hHead
    by_cases hName : name = other
    · subst hName
      simpa using Option.Rel.some hValue
    · simpa [List.lookup_cons, beq_false_of_ne hName] using ih

/-- The same names in the same order, with related values. -/
def Aligned (R : α → β → Prop) (entries : Entries α) (fields : Entries β) : Prop :=
  List.Forall₂ (fun entry field => entry.1 = field.1 ∧ R entry.2 field.2) entries fields

theorem aligned_refl {R : α → α → Prop} [Std.Refl R] (entries : Entries α) : Aligned R entries entries :=
  List.forall₂_same.mpr fun entry _ => ⟨rfl, Std.Refl.refl entry.2⟩

namespace Aligned

variable {R : α → β → Prop} {entries : Entries α} {fields : Entries β}

theorem names_eq (h : Aligned R entries fields) : entries.names = fields.names := by
  induction h with
  | nil => rfl
  | cons hHead _ ih => rw [names_cons, names_cons, hHead.1, ih]

theorem eq {entries others : Entries α} (h : Aligned Eq entries others) : entries = others :=
  List.forall₂_eq_eq_eq ▸ h.imp fun _ _ hEntry => Prod.ext hEntry.1 hEntry.2

theorem imp_of_mem {S : α → β → Prop} (h : Aligned R entries fields)
    (hImp : ∀ field ∈ fields, ∀ value, R value field.2 → S value field.2) :
    Aligned S entries fields :=
  forall₂_imp_of_mem h fun entry _ field hField hEntry => ⟨hEntry.1, hImp field hField entry.2 hEntry.2⟩

theorem lookup_rel (h : Aligned R entries fields) (name : String) :
    Option.Rel R (entries.lookup name) (fields.lookup name) :=
  lookup_rel_of_forall₂ (R := fun _ => R) h name

theorem append_singleton (h : Aligned R entries fields) (name : String) {value : α} {field : β}
    (hValue : R value field) : Aligned R (entries ++ [(name, value)]) (fields ++ [(name, field)]) :=
  List.rel_append h (.cons ⟨rfl, hValue⟩ .nil)

/-- A value may be put on either side under a name that both have or neither. -/
theorem insert_both (h : Aligned R entries fields) (name : String) {value : α} {field : β}
    (hValue : R value field) : Aligned R (entries.insert name value) (fields.insert name field) := by
  induction h with
  | nil => exact .cons ⟨rfl, hValue⟩ .nil
  | @cons entry first rest more hHead hRest ih =>
    obtain ⟨other, old⟩ := entry
    obtain ⟨_, type⟩ := first
    obtain ⟨rfl, hOld⟩ := hHead
    rw [Entries.insert, Entries.insert]
    by_cases hName : other = name
    · rw [if_pos hName, if_pos hName]
      exact .cons ⟨rfl, hValue⟩ hRest
    · rw [if_neg hName, if_neg hName]
      exact .cons ⟨rfl, hOld⟩ ih

theorem ofList (h : Aligned R entries fields) : Aligned R (Entries.ofList entries) (Entries.ofList fields) := by
  have hFold : ∀ {front : Entries α} {behind : Entries β}, Aligned R front behind →
      Aligned R (entries.foldl (fun entries entry => entries.insert entry.1 entry.2) front)
        (fields.foldl (fun entries entry => entries.insert entry.1 entry.2) behind) := by
    induction h with
    | nil => exact fun hFront => hFront
    | @cons entry field _ _ hHead _ ih =>
      intro front behind hFront
      obtain ⟨name, value⟩ := entry
      obtain ⟨_, type⟩ := field
      obtain ⟨rfl, hValue⟩ := hHead
      exact ih (hFront.insert_both name hValue)
  exact hFold .nil

theorem insert (h : Aligned R entries fields) {name : String} {field : β} {value : α}
    (hField : fields.lookup name = some field) (hValue : R value field) :
    Aligned R (entries.insert name value) fields := by
  induction h with
  | nil => cases hField
  | @cons entry first rest more hHead hRest ih =>
    obtain ⟨other, old⟩ := entry
    obtain ⟨_, type⟩ := first
    obtain ⟨rfl, hOld⟩ := hHead
    rw [Entries.insert]
    by_cases hName : other = name
    · subst hName
      have hType : type = field := by simpa using hField
      rw [if_pos rfl]
      exact .cons ⟨rfl, hType ▸ hValue⟩ hRest
    · rw [List.lookup_cons, beq_false_of_ne (Ne.symm hName)] at hField
      rw [if_neg hName]
      exact .cons ⟨rfl, hOld⟩ (ih hField)

end Aligned

end CircuitForm.Entries
