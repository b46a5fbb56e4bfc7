import CircuitForm.Path.Basic

/-!
# The order of paths

Segments are compared by the number or by the bytes of the key, and paths segment by segment.
Since a string is determined by its bytes, both comparisons are total orders in which only
equals compare as equal. What compares as less is said once more by `Less`, without a comparison.
-/

namespace CircuitForm

/-- Where only equals compare as equal, to be less is to be so at the first place that differs. -/
theorem compareLex_eq_lt_iff {α : Type} {cmp : α → α → Ordering} [Std.LawfulEqCmp cmp] {as bs : List α} :
    List.compareLex cmp as bs = .lt ↔ List.Lex (fun a b => cmp a b = .lt) as bs := by
  induction as generalizing bs with
  | nil =>
    cases bs with
    | nil => exact iff_of_false nofun nofun
    | cons b bs => exact iff_of_true rfl .nil
  | cons a as ih =>
    cases bs with
    | nil => exact iff_of_false nofun nofun
    | cons b bs =>
      rw [List.compareLex_cons_cons, Ordering.then_eq_lt, ih, Std.LawfulEqCmp.compare_eq_iff_eq]
      constructor
      · rintro (hFirst | ⟨rfl, hRest⟩)
        · exact .rel hFirst
        · exact .cons hRest
      · intro hLess
        cases hLess with
        | rel hFirst => exact .inl hFirst
        | cons hRest => exact .inr ⟨rfl, hRest⟩

theorem Bytes.compare_eq_lt_iff {as bs : Bytes} : Ord.compare as bs = .lt ↔ as < bs := by
  rw [List.compare_eq_compareLex, compareLex_eq_lt_iff]
  simp only [Std.compare_eq_lt]
  rfl

theorem Bytes.ofString_injective {s t : String} (h : ofString s = ofString t) : s = t := by
  have hBack := congrArg toString? h
  rw [toString?_ofString, toString?_ofString] at hBack
  exact Option.some.inj hBack

namespace Segment

instance : Std.OrientedCmp compare where
  eq_swap {a b} := by
    cases a with
    | index i => cases b with
      | index j => exact Std.OrientedOrd.eq_swap
      | key _ => rfl
    | key s => cases b with
      | index _ => rfl
      | key t => exact Std.OrientedOrd.eq_swap

instance : Std.TransCmp compare where
  isLE_trans {a b c} hFirst hSecond := by
    cases a <;> cases b <;> cases c <;> simp only [compare] at hFirst hSecond ⊢
    · exact Std.TransOrd.isLE_trans hFirst hSecond
    · rfl
    · cases hSecond
    · rfl
    · cases hFirst
    · cases hFirst
    · cases hSecond
    · exact Std.TransOrd.isLE_trans hFirst hSecond

instance : Std.LawfulEqCmp compare where
  compare_self {a} := by
    cases a with
    | index i => exact Std.ReflOrd.compare_self
    | key name => exact Std.ReflOrd.compare_self
  eq_of_compare {a b} h := by
    cases a with
    | index i => cases b with
      | index j => rw [Std.LawfulEqOrd.eq_of_compare h]
      | key _ => cases h
    | key s => cases b with
      | index _ => cases h
      | key t => rw [Bytes.ofString_injective (Std.LawfulEqOrd.eq_of_compare h)]

/-- Indexes go by number, keys by their bytes, and an index goes before a key. -/
inductive Less : Segment → Segment → Prop where
  | indexes {i j : Nat} (h : i < j) : Less (.index i) (.index j)
  | indexKey (i : Nat) (name : String) : Less (.index i) (.key name)
  | keys {a b : String} (h : Bytes.ofString a < Bytes.ofString b) : Less (.key a) (.key b)

theorem compare_eq_lt_iff {a b : Segment} : a.compare b = .lt ↔ a.Less b := by
  cases a with
  | index i =>
    cases b with
    | index j => exact Nat.compare_eq_lt.trans ⟨.indexes, fun (.indexes h) => h⟩
    | key name => exact iff_of_true rfl (.indexKey i name)
  | key s =>
    cases b with
    | index j => exact iff_of_false nofun nofun
    | key t => exact Bytes.compare_eq_lt_iff.trans ⟨.keys, fun (.keys h) => h⟩

end Segment

namespace Path

theorem compare_eq_compareLex : compare = List.compareLex Segment.compare := by
  funext p q
  induction p generalizing q with
  | nil => cases q <;> simp [compare, List.compareLex_nil_nil, List.compareLex_nil_cons]
  | cons a p ih =>
    cases q with
    | nil => simp [compare, List.compareLex_cons_nil]
    | cons b q => rw [compare, List.compareLex_cons_cons, ih]

instance : Std.TransCmp compare := by
  rw [compare_eq_compareLex]
  infer_instance

instance : Std.LawfulEqCmp compare := by
  rw [compare_eq_compareLex]
  infer_instance

/-- A path is less where it has the lesser segment at the first place that differs, or ends there. -/
def Less : Path → Path → Prop :=
  List.Lex Segment.Less

theorem compare_eq_lt_iff {p q : Path} : p.compare q = .lt ↔ p.Less q := by
  rw [compare_eq_compareLex, compareLex_eq_lt_iff, Less]
  simp only [Segment.compare_eq_lt_iff]

end Path

end CircuitForm
