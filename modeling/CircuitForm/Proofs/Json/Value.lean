import CircuitForm.Json.Order
import CircuitForm.Json.Reader
import CircuitForm.Proofs.Entries

/-!
# The shape of JSON values

How deep a value nests, and which values an object can be read back as. Read as data, an object
keeps one member of each name, and it stands for a number if its first key is the reserved one; a
plain value is in no danger of either.
-/

namespace CircuitForm

namespace Json

/-- Induction over a value, with the hypothesis for each item or member. -/
@[elab_as_elim, induction_eliminator]
theorem inductOn {motive : Json → Prop} (null : motive .null) (bool : ∀ b, motive (.bool b))
    (number : ∀ n, motive (.number n)) (string : ∀ s, motive (.string s))
    (array : ∀ items, (∀ item ∈ items, motive item) → motive (.array items))
    (object : ∀ members, (∀ member ∈ members, motive member.2) → motive (.object members))
    (json : Json) : motive json :=
  Json.rec (motive_1 := motive) (motive_2 := fun items => ∀ item ∈ items, motive item)
    (motive_3 := fun members => ∀ member ∈ members, motive member.2)
    (motive_4 := fun member => motive member.2)
    null bool number string array object
    (fun _ h => nomatch h)
    (fun _ _ hHead hRest _ h => (List.mem_cons.mp h).elim (fun hSame => hSame ▸ hHead) (hRest _))
    (fun _ h => nomatch h)
    (fun _ _ hHead hRest _ h => (List.mem_cons.mp h).elim (fun hSame => hSame ▸ hHead) (hRest _))
    (fun _ _ h => h) json

theorem itemsDepth_le_iff {items : List Json} {d : Nat} :
    itemsDepth items ≤ d ↔ ∀ item ∈ items, item.depth ≤ d := by
  induction items with
  | nil => simp [itemsDepth]
  | cons item rest ih => rw [itemsDepth, Nat.max_le, ih, List.forall_mem_cons]

theorem membersDepth_le_iff {members : Entries Json} {d : Nat} :
    membersDepth members ≤ d ↔ ∀ member ∈ members, member.2.depth ≤ d := by
  induction members with
  | nil => simp [membersDepth]
  | cons member rest ih =>
    obtain ⟨name, item⟩ := member
    rw [membersDepth, Nat.max_le, ih, List.forall_mem_cons]

theorem depth_array_le_iff {items : List Json} {d : Nat} :
    (array items).depth ≤ d + 1 ↔ ∀ item ∈ items, item.depth ≤ d := by
  rw [depth, Nat.add_le_add_iff_right, itemsDepth_le_iff]

theorem depth_object_le_iff {members : Entries Json} {d : Nat} :
    (object members).depth ≤ d + 1 ↔ ∀ member ∈ members, member.2.depth ≤ d := by
  rw [depth, Nat.add_le_add_iff_right, membersDepth_le_iff]

mutual

/-- At every level the names are distinct, and the reserved key does not come first. -/
def Plain : Json → Prop
  | .array items => PlainEach items
  | .object members =>
    Entries.Distinct members ∧ (Entries.names members).head? ≠ some reservedKey ∧
      PlainMembers members
  | .null | .bool _ | .number _ | .string _ => True

def PlainEach : List Json → Prop
  | [] => True
  | item :: rest => Plain item ∧ PlainEach rest

def PlainMembers : List (String × Json) → Prop
  | [] => True
  | (_, item) :: rest => Plain item ∧ PlainMembers rest

end

theorem plain_array_iff {items : List Json} :
    (array items).Plain ↔ ∀ item ∈ items, item.Plain := by
  rw [Plain]
  induction items with
  | nil => simp [PlainEach]
  | cons item rest ih => rw [PlainEach, ih, List.forall_mem_cons]

theorem plain_object_iff {members : Entries Json} :
    (object members).Plain ↔ members.Distinct ∧ members.names.head? ≠ some reservedKey ∧
      ∀ member ∈ members, member.2.Plain := by
  have hMembers : PlainMembers members ↔ ∀ member ∈ members, member.2.Plain := by
    induction members with
    | nil => simp [PlainMembers]
    | cons member rest ih =>
      obtain ⟨name, item⟩ := member
      rw [PlainMembers, ih, List.forall_mem_cons]
  rw [Plain, hMembers]

end Json

end CircuitForm
