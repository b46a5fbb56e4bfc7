import CircuitForm.Path.Basic

/-!
# Paths apart

Two paths are apart when neither leads through the other. They part at some segment, and of the
nodes at their ends neither lies within the other.
-/

namespace CircuitForm.Path

def Apart (p q : Path) : Prop :=
  ¬ p <+: q ∧ ¬ q <+: p

instance (p q : Path) : Decidable (p.Apart q) :=
  inferInstanceAs (Decidable (_ ∧ _))

theorem Apart.symm {p q : Path} (h : p.Apart q) : q.Apart p :=
  ⟨h.2, h.1⟩

theorem not_apart_nil_left (q : Path) : ¬ Apart [] q :=
  fun h => h.1 List.nil_prefix

theorem not_apart_nil_right (p : Path) : ¬ p.Apart [] :=
  fun h => h.2 List.nil_prefix

/-- Paths that start alike are apart when what follows is; else they part at once. -/
theorem apart_cons_iff {a b : Segment} {p q : Path} :
    Apart (a :: p) (b :: q) ↔ (a = b → p.Apart q) := by
  rw [Apart, List.cons_prefix_cons, List.cons_prefix_cons]
  constructor
  · rintro ⟨hFirst, hSecond⟩ hSame
    exact ⟨fun hPrefix => hFirst ⟨hSame, hPrefix⟩, fun hPrefix => hSecond ⟨hSame.symm, hPrefix⟩⟩
  · intro h
    exact ⟨fun ⟨hSame, hPrefix⟩ => (h hSame).1 hPrefix, fun ⟨hSame, hPrefix⟩ => (h hSame.symm).2 hPrefix⟩

end CircuitForm.Path
