import CircuitForm.Json.Numeral

/-!
# JSON values

Objects keep the order of their members. Nothing here forbids two members of one name; where
a document is read for its data the last one wins, at the place of the first.
-/

namespace CircuitForm

abbrev Entries (α : Type) := List (String × α)

namespace Entries

variable {α : Type}

def names (entries : Entries α) : List String :=
  entries.map Prod.fst

/-- Puts a value under a name: at the place the name has already, or at the end. -/
def insert (name : String) (value : α) : Entries α → Entries α
  | [] => [(name, value)]
  | (other, old) :: rest =>
    if other = name then (other, value) :: rest else (other, old) :: insert name value rest

def ofList (members : List (String × α)) : Entries α :=
  members.foldl (fun entries member => entries.insert member.1 member.2) []

def Distinct (entries : Entries α) : Prop :=
  entries.names.Nodup

theorem names_insert (name : String) (value : α) (entries : Entries α) :
    (entries.insert name value).names =
      if name ∈ entries.names then entries.names else entries.names ++ [name] := by
  induction entries with
  | nil => simp [insert, names]
  | cons entry rest ih =>
    obtain ⟨other, old⟩ := entry
    rw [insert]
    by_cases same : other = name
    · simp [same, names]
    · have different : name ≠ other := fun h => same h.symm
      rw [if_neg same]
      simp only [names, List.map_cons, List.mem_cons, different, false_or] at ih ⊢
      rw [ih]
      by_cases member : name ∈ rest.map Prod.fst <;> simp [member]

theorem lookup_insert (name other : String) (value : α) (entries : Entries α) :
    (entries.insert name value).lookup other =
      if other = name then some value else entries.lookup other := by
  induction entries with
  | nil =>
    by_cases h : other = name
    · simp [insert, h]
    · simp [insert, List.lookup_cons, h, beq_false_of_ne h]
  | cons entry rest ih =>
    obtain ⟨first, old⟩ := entry
    rw [insert]
    by_cases same : first = name
    · subst same
      by_cases h : other = first
      · simp [h]
      · simp [List.lookup_cons, h, beq_false_of_ne h]
    · rw [if_neg same]
      by_cases h : other = first
      · subst h
        simp [same]
      · simp only [List.lookup_cons, beq_false_of_ne h]
        exact ih

end Entries

inductive Json where
  | null
  | bool (b : Bool)
  | number (n : Numeral)
  | string (s : String)
  | array (items : List Json)
  | object (members : List (String × Json))
deriving Inhabited, Repr

end CircuitForm
